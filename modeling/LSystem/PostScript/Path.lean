import LSystem.Media.Sink
import LSystem.Turtle.Basic

/-!
# PostScript paths

The lines of a path that a turtle leaves, one operator line for each motion that matters.  The first
path is opened by the first motion that needs one.  Turtles cannot fail; so the first failure of the
sink is kept, nothing is written after it, and `finish` reports it.
-/

namespace LSystem.PostScript

/-- A point as it is written: both coordinates to four decimal places. -/
structure Coordinates where
  x : Number.Fixed 4
  y : Number.Fixed 4
  deriving DecidableEq, Repr

namespace Coordinates

def ofPoint {α : Type} [Scalar α] (p : Point α) : Coordinates :=
  ⟨Scalar.fixed 4 p.x, Scalar.fixed 4 p.y⟩

def text (c : Coordinates) : String := c.x.text ++ " " ++ c.y.text

end Coordinates

/-- A line of path operators. -/
inductive Operator where
  | openPath (position : Coordinates)
  | lineTo (position : Coordinates)
  | moveTo (position : Coordinates)
  /-- Strokes what there is and goes on from the current point. -/
  | breakPath
  /-- Strokes what there is and goes on from elsewhere. -/
  | restart (position : Coordinates)
  | stroke
  deriving DecidableEq, Repr

def Operator.text : Operator → String
  | openPath c => "newpath " ++ c.text ++ " moveto"
  | lineTo c => c.text ++ " lineto"
  | moveTo c => c.text ++ " moveto"
  | breakPath => "currentpoint stroke newpath moveto"
  | restart c => "stroke newpath " ++ c.text ++ " moveto"
  | stroke => "stroke"

/-- The path being written: where to, what went wrong first, how many lines were written, and whether
a path has been opened. -/
structure Path where
  sink : Sink
  fault : Option WriteError := none
  lines : Nat := 0
  isOpen : Bool := false

namespace Path

/-- Writes a line, unless something went wrong before. -/
def emit : Path → Operator → Path
  | ⟨sink, none, lines, isOpen⟩, operator =>
    match sink.write (operator.text ++ "\n") with
    | (none, sink) => ⟨sink, none, lines + 1, isOpen⟩
    | (some fault, sink) => ⟨sink, some fault, lines, isOpen⟩
  | path, _ => path

variable {α : Type} [Scalar α]

/-- Opens the first path at a position, once. -/
def ensureOpen : Path → Point α → Path
  | ⟨sink, fault, lines, false⟩, position =>
    Path.emit ⟨sink, fault, lines, true⟩ (.openPath (.ofPoint position))
  | path, _ => path

def mark (path : Path) : Motion α → Path
  | .drawn source target => (path.ensureOpen source).emit (.lineTo (.ofPoint target))
  | .moved source target => (path.ensureOpen source).emit (.moveTo (.ofPoint target))
  | .saved position => (path.ensureOpen position).emit .breakPath
  | .restored position => path.emit (.restart (.ofPoint position))
  | .placed pose =>
    -- Only a first path is opened; one that is open is stroked before the pen goes elsewhere.
    if path.isOpen then path.emit (.restart (.ofPoint pose.position))
    else path.ensureOpen pose.position

instance : Medium Path α := ⟨mark⟩

def close (path : Path) : Path :=
  if path.isOpen then path.emit .stroke else path

/-- Strokes the path that is open, and gives the first failure, if any, with the sink. -/
def finish (path : Path) : Option WriteError × Sink :=
  match path.close with
  | ⟨sink, some fault, _, _⟩ => (some fault, sink)
  | ⟨sink, none, _, _⟩ => (sink.flush, sink)

end Path

end LSystem.PostScript
