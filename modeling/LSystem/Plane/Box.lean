import LSystem.Plane.Point

/-!
# Boxes

A box with sides along the axes, given by its lower left and its upper right corner.  It is grown
point by point or joined with another box, and starts at a point, so it is never empty.
-/

namespace LSystem

/-- The points between two corners. -/
structure Box (α : Type) where
  low : Point α
  high : Point α
  deriving DecidableEq, Repr, Inhabited

namespace Box

variable {α : Type} [Scalar α]

@[inline] def single (p : Point α) : Box α := ⟨p, p⟩

@[inline] def grow (b : Box α) (p : Point α) : Box α := ⟨b.low.lower p, b.high.upper p⟩

@[inline] def union (b c : Box α) : Box α := ⟨b.low.lower c.low, b.high.upper c.high⟩

/-- The box around some points, if there are any. -/
def around? : List (Point α) → Option (Box α)
  | [] => none
  | p :: ps => some (ps.foldl grow (Box.single p))

def width (b : Box α) : α := b.high.x - b.low.x

def height (b : Box α) : α := b.high.y - b.low.y

def size (b : Box α) : Point α := b.high - b.low

def center (b : Box α) : Point α := (b.low + b.high).scale 0.5

def isDegenerate (b : Box α) : Bool := b.width == 0.0 || b.height == 0.0

/-- Whether a point is inside or on the border. -/
def containsPoint (b : Box α) (p : Point α) : Bool := b.low.atMost p && p.atMost b.high

/-- Whether a box is inside, border included. -/
def contains (b c : Box α) : Bool := b.containsPoint c.low && b.containsPoint c.high

end Box

end LSystem
