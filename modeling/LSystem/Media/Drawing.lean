import LSystem.Plane.Box
import LSystem.Turtle.Basic

/-!
# Drawings

The record of a run: the lines that were left, in order, and every position that the turtle went to.
A drawing is a medium; putting a turtle on it starts the record anew.
-/

namespace LSystem

/-- A line from one point to another. -/
structure Segment (α : Type) where
  source : Point α
  target : Point α
  deriving DecidableEq, Repr, Inhabited

def Segment.length {α : Type} [Scalar α] (s : Segment α) : α := s.source.distance s.target

/-- The record of a run. -/
structure Drawing (α : Type) where
  /-- Where the turtle was put. -/
  start : Option (Pose α) := none
  /-- The lines, in the order they were drawn. -/
  segments : Array (Segment α) := #[]
  /-- The positions gone to by drawing, moving and going back, after the one at the start. -/
  trace : Array (Point α) := #[]
  /-- The box of a whole run. -/
  bounds : Option (Box α) := none
  deriving DecidableEq, Repr

namespace Drawing

variable {α : Type} [Scalar α]

def inkLength (d : Drawing α) : α :=
  d.segments.foldl (fun sum s => sum + s.length) (-0.0)

/-- The box around the positions gone to, if there are any. -/
def traceBounds? (d : Drawing α) : Option (Box α) :=
  Box.around? d.trace.toList

def mark : Drawing α → Motion α → Drawing α
  | ⟨start, segments, trace, bounds⟩, .drawn source target =>
    ⟨start, segments.push ⟨source, target⟩, trace.push target, bounds⟩
  | ⟨start, segments, trace, bounds⟩, .moved _ target =>
    ⟨start, segments, trace.push target, bounds⟩
  | d, .saved _ => d
  | ⟨start, segments, trace, bounds⟩, .restored position =>
    ⟨start, segments, trace.push position, bounds⟩
  | _, .placed pose => { start := some pose, trace := #[pose.position] }

instance : Medium (Drawing α) α := ⟨mark⟩

end Drawing

end LSystem
