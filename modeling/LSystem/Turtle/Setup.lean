import LSystem.Turtle.Basic

/-!
# Setups

Where a turtle starts, how it faces, how long its step is and how far it turns.
-/

namespace LSystem

/-- The placement and the units of a turtle before a run. -/
structure Setup (α : Type) where
  start : Point α
  heading : α
  step : α
  angle : α
  deriving DecidableEq, Repr

namespace Setup

variable {μ α : Type} [Scalar α] [Medium μ α]

/-- At the origin, facing up, with unit step and right angles. -/
def standard : Setup α := { start := Point.origin, heading := 90.0, step := 1.0, angle := 90.0 }

/-- Sets the units of a turtle, then places it. -/
def apply (s : Setup α) (t : Turtle μ α) : Turtle μ α :=
  (t.setUnits s.step s.angle).place ⟨s.start, s.heading⟩

end Setup

end LSystem
