import LSystem.Media.Drawing
import LSystem.Proofs.Plane.Similarity
import LSystem.Proofs.Turtle.Motion

/-!
# Turtles on a plane that is stretched and shifted

A turtle whose step is stretched with the plane goes the same way on the image: each action takes the
image of a pen to the image of the pen after it, and what is drawn on the way is the image of what
was drawn.
-/

namespace LSystem

variable {K : Type} [Field K] [LinearOrder K]

namespace Similarity

variable (m : Similarity K)

def pose (p : Pose K) : Pose K := ⟨m.image p.position, p.heading⟩

/-- A pen in another place, with a step that is as much longer as the plane is wider. -/
def pen (p : Pen K) : Pen K :=
  { position := m.image p.position
    heading := p.heading
    step := p.step * m.factor
    angle := p.angle
    stack := p.stack.map m.pose }

def segment (s : Segment K) : Segment K := ⟨m.image s.source, m.image s.target⟩

def drawing (d : Drawing K) : Drawing K :=
  { start := d.start.map m.pose
    segments := d.segments.map m.segment
    trace := d.trace.map m.image
    bounds := d.bounds.map m.box }

def motion : Motion K → Motion K
  | .drawn source target => .drawn (m.image source) (m.image target)
  | .moved source target => .moved (m.image source) (m.image target)
  | .saved position => .saved (m.image position)
  | .restored position => .restored (m.image position)
  | .placed pose => .placed (m.pose pose)

theorem drawing_mark (d : Drawing K) (x : Motion K) :
    (m.drawing d).mark (m.motion x) = m.drawing (d.mark x) := by
  cases x <;> simp [drawing, motion, Drawing.mark, segment, pose]

theorem pen_restore? (p : Pen K) : (m.pen p).restore? = p.restore?.map m.pen := by
  unfold Pen.restore?
  cases h : p.stack <;> simp [pen, pose, h]

variable [FloorRing K] (direction : K → K × K) (sqrt : K → K)

theorem pen_advance (p : Pen K) :
    letI := Scalar.exact K direction sqrt
    (m.pen p).advance = m.pen p.advance := by
  let := Scalar.exact K direction sqrt
  have haxis (center shift a d : K) :
      along center shift m.factor a + d * (p.step * m.factor) =
        along center shift m.factor (a + d * p.step) := by
    unfold along
    ring
  have hposition : (m.pen p).advance.position = m.image p.advance.position :=
    congrArg₂ Point.mk (haxis _ _ _ _) (haxis _ _ _ _)
  show { m.pen p with position := (m.pen p).advance.position } = m.pen p.advance
  rw [hposition]
  rfl

theorem pen_perform (p : Pen K) (a : Action) :
    letI := Scalar.exact K direction sqrt
    (m.pen p).perform a = m.pen (p.perform a) := by
  let := Scalar.exact K direction sqrt
  cases a with
  | draw => exact m.pen_advance direction sqrt p
  | move => exact m.pen_advance direction sqrt p
  | pop =>
    show (m.pen p).restore?.getD (m.pen p) = m.pen (p.restore?.getD p)
    rw [pen_restore?, Option.getD_map]
  | _ => rfl

theorem motion?_pen (p : Pen K) (a : Action) :
    letI := Scalar.exact K direction sqrt
    (m.pen p).motion? a = (p.motion? a).map m.motion := by
  let := Scalar.exact K direction sqrt
  have hadvance := m.pen_advance direction sqrt p
  cases a with
  | draw => exact congrArg (fun q : Pen K ↦ some (Motion.drawn _ q.position)) hadvance
  | move => exact congrArg (fun q : Pen K ↦ some (Motion.moved _ q.position)) hadvance
  | pop =>
    show ((m.pen p).restore?.map fun restored ↦ Motion.restored restored.position) = _
    rw [pen_restore?]
    unfold Pen.motion?
    cases p.restore? <;> rfl
  | _ => rfl

/-- A turtle on the image of a drawing, where the pen is the image of the other one's. -/
structure Images (t u : Turtle (Drawing K) K) : Prop where
  pen : u.pen = m.pen t.pen
  medium : u.medium = m.drawing t.medium

variable {m} {t u : Turtle (Drawing K) K}

theorem Images.perform (h : m.Images t u) (a : Action) :
    letI := Scalar.exact K direction sqrt
    m.Images (t.perform a) (u.perform a) := by
  let := Scalar.exact K direction sqrt
  constructor
  · rw [Turtle.pen_perform, Turtle.pen_perform, h.pen, m.pen_perform direction sqrt]
  · rw [Turtle.medium_perform, Turtle.medium_perform, h.pen, h.medium,
      m.motion?_pen direction sqrt]
    cases t.pen.motion? a with
    | none => rfl
    | some x => exact m.drawing_mark t.medium x

theorem Images.carry (h : m.Images t u) (g : Grammar) (w : Word) :
    letI := Scalar.exact K direction sqrt
    m.Images (g.carry w t) (g.carry w u) := by
  let := Scalar.exact K direction sqrt
  induction w generalizing t u with
  | nil => exact h
  | cons s w ih =>
    refine ih ?_
    unfold Grammar.step
    cases g.action? s with
    | none => exact h
    | some a => exact h.perform direction sqrt a

end Similarity

end LSystem
