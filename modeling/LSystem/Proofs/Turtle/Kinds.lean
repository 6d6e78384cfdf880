import LSystem.Media.Device
import LSystem.Proofs.Turtle.Calls

/-!
# Kinds of turtles

A kind of turtle does some operations in a way of its own, and has to move its pen itself when it does;
in all others only the pen moves.  The silent kind has no way of its own, and the others leave lines in
a drawing, on a page or on a canvas.  Each of them does what a turtle does whose pen moves by itself
and whose medium is shown the motions (`Kind.Faithful`); so whatever they are told, turtles of two
kinds go the same way (`Kind.Faithful.pen_calls`).
-/

namespace LSystem

open PostScript (Path Operator)

variable {α μ ν : Type} [Scalar α]

/-! ## Moving the pen alone -/

namespace Turtle

def advance (t : Turtle μ α) : Turtle μ α := { t with pen := t.pen.advance }

def turn (t : Turtle μ α) (sign : α) : Turtle μ α := { t with pen := t.pen.turn sign }

def save (t : Turtle μ α) : Turtle μ α := { t with pen := t.pen.save }

/-- Goes back to the pose remembered last and does some more there.  If there is none, that is noted
and nothing else is done. -/
def restore (more : Turtle μ α → Turtle μ α) (t : Turtle μ α) : Turtle μ α :=
  match t.pen.restore? with
  | some restored => more { t with pen := restored }
  | none => { t with unmatched := t.unmatched.push t.pen.position }

def reset (t : Turtle μ α) (pose : Pose α) : Turtle μ α := { t with pen := t.pen.place pose }

omit [Scalar α] in
theorem pop_eq [Medium μ α] (t : Turtle μ α) :
    t.pop =
      t.restore fun t ↦ { t with medium := Medium.mark t.medium (.restored t.pen.position) } := by
  unfold pop restore
  cases h : t.pen.restore? <;> simp [h]

end Turtle

/-! ## Kinds -/

/-- What turtles of a kind do when they are told to.  A kind that says nothing moves the pen alone; it
has no say in how turtles turn. -/
structure Kind (μ α : Type) [Scalar α] where
  draw : Turtle μ α → Turtle μ α := Turtle.advance
  move : Turtle μ α → Turtle μ α := Turtle.advance
  push : Turtle μ α → Turtle μ α := Turtle.save
  pop : Turtle μ α → Turtle μ α := Turtle.restore id
  place : Turtle μ α → Pose α → Turtle μ α := Turtle.reset

namespace Kind

def call (k : Kind μ α) (t : Turtle μ α) : Call α → Turtle μ α
  | .place pose => k.place t pose
  | .setUnits step angle => { t with pen := t.pen.setUnits step angle }
  | .perform .draw => k.draw t
  | .perform .move => k.move t
  | .perform .turnLeft => t.turn 1.0
  | .perform .turnRight => t.turn (-1.0)
  | .perform .push => k.push t
  | .perform .pop => k.pop t
  | .perform .stay => t

def calls (k : Kind μ α) (t : Turtle μ α) (cs : List (Call α)) : Turtle μ α := cs.foldl k.call t

/-- A kind that does on a medium what a turtle does that shows every motion to it. -/
structure Faithful [Medium μ α] (k : Kind μ α) : Prop where
  draw : ∀ t, k.draw t = t.draw
  move : ∀ t, k.move t = t.move
  push : ∀ t, k.push t = t.push
  pop : ∀ t, k.pop t = t.pop
  place : ∀ t pose, k.place t pose = t.place pose

namespace Faithful

variable [Medium μ α] [Medium ν α] {k : Kind μ α} {l : Kind ν α}

theorem call (h : k.Faithful) (t : Turtle μ α) (c : Call α) : k.call t c = t.call c := by
  cases c with
  | place pose => exact h.place t pose
  | setUnits step angle => rfl
  | perform a =>
    cases a with
    | draw => exact h.draw t
    | move => exact h.move t
    | push => exact h.push t
    | pop => exact h.pop t
    | _ => rfl

theorem calls (h : k.Faithful) (t : Turtle μ α) (cs : List (Call α)) :
    k.calls t cs = t.calls cs := by
  induction cs generalizing t with
  | nil => rfl
  | cons c cs ih =>
    show k.calls (k.call t c) cs = (t.call c).calls cs
    rw [h.call, ih]

/-- Turtles of two kinds go the same way. -/
theorem pen_calls (h : k.Faithful) (h' : l.Faithful) {t : Turtle μ α} {u : Turtle ν α}
    (hpen : t.pen = u.pen) (cs : List (Call α)) : (k.calls t cs).pen = (l.calls u cs).pen := by
  rw [h.calls, h'.calls, Turtle.pen_calls, Turtle.pen_calls, hpen]

end Faithful

/-! ## Silent turtles -/

def silent : Kind Silent α := {}

theorem faithful_silent : (silent : Kind Silent α).Faithful where
  draw _ := rfl
  move _ := rfl
  push _ := rfl
  pop t := t.pop_eq.symm
  place _ _ := rfl

/-! ## Recording turtles -/

def recording : Kind (Drawing α) α where
  draw t :=
    let source := t.position
    let t := t.advance
    { t with
      medium := { t.medium with
        segments := t.medium.segments.push ⟨source, t.position⟩
        trace := t.medium.trace.push t.position } }
  move t :=
    let t := t.advance
    { t with medium := { t.medium with trace := t.medium.trace.push t.position } }
  pop := Turtle.restore fun t ↦
    { t with medium := { t.medium with trace := t.medium.trace.push t.position } }
  place t pose :=
    let t := t.reset pose
    { t with medium := { start := some t.pen.pose, trace := #[pose.position] } }

theorem faithful_recording : (recording : Kind (Drawing α) α).Faithful where
  draw _ := rfl
  move _ := rfl
  push _ := rfl
  pop t := t.pop_eq.symm
  place _ _ := rfl

/-! ## Turtles that write paths -/

/-- Starts the first path where the turtle is, once. -/
def openPath (t : Turtle Path α) : Turtle Path α :=
  { t with medium := t.medium.ensureOpen t.position }

def emit (t : Turtle Path α) (operator : Operator) : Turtle Path α :=
  { t with medium := t.medium.emit operator }

def writing : Kind Path α where
  draw t :=
    let t := (openPath t).advance
    emit t (.lineTo (.ofPoint t.position))
  move t :=
    let t := (openPath t).advance
    emit t (.moveTo (.ofPoint t.position))
  push t := emit (openPath t).save .breakPath
  pop := Turtle.restore fun t ↦ emit t (.restart (.ofPoint t.position))
  place t pose :=
    let t := t.reset pose
    if t.medium.isOpen then emit t (.restart (.ofPoint pose.position)) else openPath t

theorem faithful_writing : (writing : Kind Path α).Faithful where
  draw _ := rfl
  move _ := rfl
  push _ := rfl
  pop t := t.pop_eq.symm
  place t pose := by
    -- The pen is at the pose before a path is opened, so the path starts there.
    show (if t.medium.isOpen then emit (t.reset pose) (.restart (.ofPoint pose.position))
      else openPath (t.reset pose)) =
      { t with
        pen := t.pen.place pose
        medium :=
          if t.medium.isOpen then t.medium.emit (.restart (.ofPoint pose.position))
          else t.medium.ensureOpen pose.position }
    split <;> rfl

/-! ## Turtles that paint -/

def painting : Kind (Raster α) α where
  draw t :=
    let source := t.position
    let t := t.advance
    { t with
      medium := { t.medium with
        canvas := t.medium.canvas.line t.medium.viewport t.medium.ink source t.position } }

theorem faithful_painting : (painting : Kind (Raster α) α).Faithful where
  draw _ := rfl
  move _ := rfl
  push _ := rfl
  pop t := t.pop_eq.symm
  place _ _ := rfl

end Kind

end LSystem
