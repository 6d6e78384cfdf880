import LSystem.Plane.Point

/-!
# The pen

Where the turtle is, where it is facing, the length of its step, the size of its turn, and the poses
it remembers.  All movement happens here, so it is the same whatever the turtle draws on.
-/

namespace LSystem

/-- A position and a heading in degrees; zero faces along x, and angles grow counter-clockwise. -/
structure Pose (α : Type) where
  position : Point α
  heading : α
  deriving DecidableEq, Repr, Inhabited

/-- The state of a turtle.  The pose remembered last comes first on the stack. -/
structure Pen (α : Type) where
  position : Point α
  heading : α
  step : α
  angle : α
  stack : List (Pose α)
  deriving DecidableEq, Repr

namespace Pen

variable {α : Type} [Scalar α]

/-- A pen at a pose, with unit step and a right angle as its turn. -/
def start (pose : Pose α) : Pen α :=
  { position := pose.position, heading := pose.heading, step := 1.0, angle := 90.0, stack := [] }

def initial : Pen α := start ⟨Point.origin, 0.0⟩

@[inline] def direction (p : Pen α) : Point α :=
  let (x, y) := Scalar.direction p.heading
  ⟨x, y⟩

@[inline] def pose (p : Pen α) : Pose α := ⟨p.position, p.heading⟩

@[inline] def advance (p : Pen α) : Pen α :=
  { p with position := p.position + p.direction.scale p.step }

/-- A turn by `sign` unit angles, counter-clockwise if positive. -/
@[inline] def turn (p : Pen α) (sign : α) : Pen α :=
  { p with heading := p.heading + sign * p.angle }

@[inline] def save (p : Pen α) : Pen α :=
  { p with stack := p.pose :: p.stack }

/-- Goes back to the pose remembered last, if there is one. -/
@[inline] def restore? (p : Pen α) : Option (Pen α) :=
  match p.stack with
  | [] => none
  | pose :: stack => some { p with position := pose.position, heading := pose.heading, stack }

/-- Puts the pen at a pose and forgets what it remembers.  Step and angle stay. -/
@[inline] def place (p : Pen α) (pose : Pose α) : Pen α :=
  { p with position := pose.position, heading := pose.heading, stack := [] }

/-- Sets the length of a step and the size of a turn. -/
@[inline] def setUnits (p : Pen α) (step angle : α) : Pen α :=
  { p with step, angle }

end Pen

end LSystem
