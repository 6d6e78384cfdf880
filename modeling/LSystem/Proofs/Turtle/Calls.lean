import LSystem.Media.Drawing
import LSystem.Proofs.Turtle.Motion

/-! Turtles that are called from outside, in any order: placed, given units, told to act. -/

namespace LSystem

/-- What a turtle can be told. -/
inductive Call (α : Type) where
  | place (pose : Pose α)
  | setUnits (step angle : α)
  | perform (a : Action)
  deriving Repr

variable {α : Type} [Scalar α]

namespace Pen

def call (p : Pen α) : Call α → Pen α
  | .place pose => p.place pose
  | .setUnits step angle => p.setUnits step angle
  | .perform a => p.perform a

def calls (p : Pen α) (cs : List (Call α)) : Pen α := cs.foldl call p

/-- What a medium sees of a call. -/
def seen? (p : Pen α) : Call α → Option (Motion α)
  | .place pose => some (.placed pose)
  | .setUnits _ _ => none
  | .perform a => p.motion? a

/-- The line that a call draws. -/
def stroke? (p : Pen α) : Call α → Option (Segment α)
  | .perform .draw => some ⟨p.position, p.advance.position⟩
  | _ => none

/-- The lines that are drawn by some calls, in order. -/
def strokes : Pen α → List (Call α) → List (Segment α)
  | _, [] => []
  | p, c :: cs => (p.stroke? c).toList ++ (p.call c).strokes cs

end Pen

namespace Turtle

variable {μ : Type} [Medium μ α]

def call (t : Turtle μ α) : Call α → Turtle μ α
  | .place pose => t.place pose
  | .setUnits step angle => t.setUnits step angle
  | .perform a => t.perform a

/-- A turtle after some calls. -/
def calls (t : Turtle μ α) (cs : List (Call α)) : Turtle μ α := cs.foldl call t

theorem pen_call (t : Turtle μ α) (c : Call α) : (t.call c).pen = t.pen.call c := by
  cases c with
  | perform a => exact t.pen_perform a
  | _ => rfl

theorem medium_call (t : Turtle μ α) (c : Call α) :
    (t.call c).medium = (t.pen.seen? c).elim t.medium (Medium.mark t.medium) := by
  cases c with
  | perform a => exact t.medium_perform a
  | _ => rfl

theorem pen_calls (t : Turtle μ α) (cs : List (Call α)) : (t.calls cs).pen = t.pen.calls cs :=
  (List.foldl_hom pen fun t c => (t.pen_call c).symm).symm

theorem calls_append (t : Turtle μ α) (cs more : List (Call α)) :
    t.calls (cs ++ more) = (t.calls cs).calls more := List.foldl_append

theorem calls_perform (t : Turtle μ α) (as : List Action) :
    t.calls (as.map Call.perform) = as.foldl perform t := List.foldl_map

end Turtle

end LSystem
