import LSystem.Turtle.Action
import LSystem.Turtle.Pen

/-!
# Turtles

A turtle is a pen on a medium.  The pen moves on its own; the medium only sees the motions that may
leave something on it.  So every turtle goes the same way whatever its medium, and a medium is no
more than what it makes of a motion.
-/

namespace LSystem

/-- What a medium sees of a turtle. -/
inductive Motion (α : Type) where
  /-- A step that leaves a line. -/
  | drawn (source target : Point α)
  /-- A step that leaves nothing. -/
  | moved (source target : Point α)
  /-- A pose has been remembered at a position. -/
  | saved (position : Point α)
  /-- The pen is back at a remembered position. -/
  | restored (position : Point α)
  /-- The pen has been put at a pose. -/
  | placed (pose : Pose α)
  deriving Repr

/-- Something a turtle can be on: it makes something of every motion. -/
class Medium (μ α : Type) where
  mark : μ → Motion α → μ

/-- Anything that performs actions and is somewhere. -/
class Performer (τ : Type) (α : outParam Type) where
  perform : τ → Action → τ
  position : τ → Point α

/-- A pen on a medium, with the positions where it was told to go back and remembered no pose. -/
structure Turtle (μ α : Type) where
  pen : Pen α
  medium : μ
  unmatched : Array (Point α) := #[]

namespace Turtle

variable {μ α : Type} [Scalar α] [Medium μ α]

def on (medium : μ) : Turtle μ α := { pen := Pen.initial, medium }

@[inline] def position (t : Turtle μ α) : Point α := t.pen.position

@[inline] def draw : Turtle μ α → Turtle μ α
  | ⟨pen, medium, unmatched⟩ =>
    let moved := pen.advance
    ⟨moved, Medium.mark medium (.drawn pen.position moved.position), unmatched⟩

@[inline] def move : Turtle μ α → Turtle μ α
  | ⟨pen, medium, unmatched⟩ =>
    let moved := pen.advance
    ⟨moved, Medium.mark medium (.moved pen.position moved.position), unmatched⟩

@[inline] def turnLeft (t : Turtle μ α) : Turtle μ α := { t with pen := t.pen.turn 1.0 }

@[inline] def turnRight (t : Turtle μ α) : Turtle μ α := { t with pen := t.pen.turn (-1.0) }

@[inline] def push : Turtle μ α → Turtle μ α
  | ⟨pen, medium, unmatched⟩ =>
    ⟨pen.save, Medium.mark medium (.saved pen.position), unmatched⟩

/-- Goes back to the pose remembered last.  Without one the turtle stays where it is, and that is
noted. -/
@[inline] def pop : Turtle μ α → Turtle μ α
  | ⟨pen, medium, unmatched⟩ =>
    match pen.restore? with
    | some restored => ⟨restored, Medium.mark medium (.restored restored.position), unmatched⟩
    | none => ⟨pen, medium, unmatched.push pen.position⟩

/-- Puts the turtle at a pose, with nothing remembered. -/
def place : Turtle μ α → Pose α → Turtle μ α
  | ⟨pen, medium, unmatched⟩, pose => ⟨pen.place pose, Medium.mark medium (.placed pose), unmatched⟩

/-- Sets the length of a step and the size of a turn. -/
def setUnits (t : Turtle μ α) (step angle : α) : Turtle μ α :=
  { t with pen := t.pen.setUnits step angle }

@[specialize] def perform (t : Turtle μ α) : Action → Turtle μ α
  | .draw => t.draw
  | .move => t.move
  | .turnLeft => t.turnLeft
  | .turnRight => t.turnRight
  | .push => t.push
  | .pop => t.pop
  | .stay => t

instance : Performer (Turtle μ α) α := ⟨perform, position⟩

end Turtle

/-! ## The medium that stays blank -/

/-- A medium on which nothing leaves a mark. -/
structure Silent where
  deriving DecidableEq, Repr

instance {α : Type} : Medium Silent α := ⟨fun s _ => s⟩

end LSystem
