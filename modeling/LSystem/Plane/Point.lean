import LSystem.Number.Scalar

/-!
# Points of the plane

A point is a pair of coordinates, and also the vector from the origin to it.  All operations work
coordinate by coordinate.
-/

namespace LSystem

/-- A point, or a vector. -/
structure Point (α : Type) where
  x : α
  y : α
  deriving DecidableEq, Repr, Inhabited

namespace Point

variable {α : Type} [Scalar α]

def origin : Point α := ⟨0.0, 0.0⟩

@[inline] def diagonal (a : α) : Point α := ⟨a, a⟩

@[inline] def add (p q : Point α) : Point α := ⟨p.x + q.x, p.y + q.y⟩

@[inline] def sub (p q : Point α) : Point α := ⟨p.x - q.x, p.y - q.y⟩

@[inline] def scale (p : Point α) (a : α) : Point α := ⟨p.x * a, p.y * a⟩

instance : Add (Point α) := ⟨add⟩

instance : Sub (Point α) := ⟨sub⟩

@[inline] def lower (p q : Point α) : Point α := ⟨Scalar.lower p.x q.x, Scalar.lower p.y q.y⟩

@[inline] def upper (p q : Point α) : Point α := ⟨Scalar.upper p.x q.x, Scalar.upper p.y q.y⟩

/-- Whether both coordinates are at most those of `q`. -/
@[inline] def atMost (p q : Point α) : Bool := p.x ≤ q.x && p.y ≤ q.y

def distance (p q : Point α) : α :=
  let d := p - q
  Scalar.sqrt (d.x * d.x + d.y * d.y)

end Point

end LSystem
