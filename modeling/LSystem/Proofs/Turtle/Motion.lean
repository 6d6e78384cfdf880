import LSystem.Proofs.Walk.Route
import LSystem.Turtle.Setup

/-! A turtle's pen goes its own way: the medium is shown the motions, and has no say in them. -/

namespace LSystem

variable {α : Type}

theorem Setup.pen_apply {μ : Type} [Medium μ α] (s : Setup α) (t : Turtle μ α) :
    (s.apply t).pen =
      { position := s.start
        heading := s.heading
        step := s.step
        angle := s.angle
        stack := [] } := rfl

variable [Scalar α]

namespace Pen

/-- The pen after an action. -/
def perform (p : Pen α) : Action → Pen α
  | .draw => p.advance
  | .move => p.advance
  | .turnLeft => p.turn 1.0
  | .turnRight => p.turn (-1.0)
  | .push => p.save
  | .pop => p.restore?.getD p
  | .stay => p

/-- What a medium sees of an action. -/
def motion? (p : Pen α) : Action → Option (Motion α)
  | .draw => some (.drawn p.position p.advance.position)
  | .move => some (.moved p.position p.advance.position)
  | .turnLeft => none
  | .turnRight => none
  | .push => some (.saved p.position)
  | .pop => p.restore?.map fun restored ↦ .restored restored.position
  | .stay => none

end Pen

namespace Turtle

variable {μ ν : Type} [Medium μ α] [Medium ν α]

theorem pen_perform (t : Turtle μ α) (a : Action) : (t.perform a).pen = t.pen.perform a := by
  cases a with
  | pop =>
    show t.pop.pen = t.pen.restore?.getD t.pen
    unfold pop
    cases h : t.pen.restore? <;> simp [h]
  | _ => rfl

theorem medium_perform (t : Turtle μ α) (a : Action) :
    (t.perform a).medium = (t.pen.motion? a).elim t.medium (Medium.mark t.medium) := by
  cases a with
  | pop =>
    show t.pop.medium = (t.pen.restore?.map fun restored ↦ Motion.restored restored.position).elim
      t.medium (Medium.mark t.medium)
    unfold pop
    cases h : t.pen.restore? <;> simp [h]
  | _ => rfl

-- Whatever the media make of the motions, equal pens stay equal.
theorem simulates_pen : Simulates fun (t : Turtle μ α) (u : Turtle ν α) => t.pen = u.pen where
  position h := congrArg Pen.position h
  perform {t u} h a := by
    show (t.perform a).pen = (u.perform a).pen
    rw [pen_perform, pen_perform, h]

end Turtle

end LSystem
