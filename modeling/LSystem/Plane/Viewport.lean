import LSystem.Plane.Box

/-!
# Viewports

A viewport maps the plane onto a surface of a given size: it stretches by one factor along both axes
and shifts.  `fit` chooses both so that a box fills the free area of the surface and is centred.
-/

namespace LSystem

/-- A scale and a translation that take the plane to a surface.  The surface has its origin at the
lower left, and y points up. -/
structure Viewport (α : Type) where
  scale : α
  translation : Point α
  surface : Point α
  deriving DecidableEq, Repr, Inhabited

namespace Viewport

variable {α : Type} [Scalar α]

/-- The plane as it is, on a surface of the given size. -/
def identity (width height : α) : Viewport α :=
  { scale := 1.0, translation := Point.origin, surface := ⟨width, height⟩ }

/-- The factor by which a box of the given size fills the free area.  An extent that is a billionth
of the other one is noise and does not count; a box without any extent keeps its scale. -/
def fitScale (free size : Point α) : α :=
  let noise := Scalar.upper size.x size.y * 1e-9
  if noise < size.x then
    if noise < size.y then Scalar.least (free.x / size.x) (free.y / size.y)
    else free.x / size.x
  else if noise < size.y then free.y / size.y
  else 1.0

/-- The viewport that centres a box on the surface and fills what the margins leave free.  The free
area is never smaller than one by one. -/
def fit (bounds : Box α) (width height margin : α) : Viewport α :=
  let surface : Point α := ⟨width, height⟩
  let free := (surface - Point.diagonal (2.0 * margin)).upper (Point.diagonal 1.0)
  let scale := fitScale free bounds.size
  { scale, translation := surface.scale 0.5 - bounds.center.scale scale, surface }

@[inline] def toSurface (v : Viewport α) (p : Point α) : Point α := p.scale v.scale + v.translation

/-- Where a point lands on a canvas, whose rows are counted from the top. -/
@[inline] def toPixel (v : Viewport α) (p : Point α) : Point α :=
  let q := v.toSurface p
  ⟨q.x, v.surface.y - q.y⟩

/-- The box that a box covers on the surface. -/
def mapBox (v : Viewport α) (b : Box α) : Box α :=
  (Box.single (v.toSurface b.low)).grow (v.toSurface b.high)

end Viewport

end LSystem
