import LSystem.Options
import LSystem.Grammar.Alphabet
import LSystem.Json.Record
import LSystem.Json.Value
import LSystem.Media.Drawing
import LSystem.Plane.Viewport
import LSystem.Turtle.Setup

/-!
# The JSON forms of what is drawn

For each type of the plane, the turtle and its media: the document of a value, and the reader that
gives a value of the type.  Points are arrays of two numbers; everything else is a record.
-/

namespace LSystem

open Json (Value Reader)
open Json.Reader (float natural longNatural letter nullable list pair quadruple)

/-! ## Points and boxes -/

namespace Point

def toJson (p : Point Float) : Value := .array [.number p.x, .number p.y]

def read : Reader (Point Float) := do
  let (x, y) ← pair float
  return ⟨x, y⟩

end Point

namespace Box

def toJson (b : Box Float) : Value :=
  .object [("min", b.low.toJson), ("max", b.high.toJson)]

def fields : List (Json.Record.Field (Box Float)) :=
  [ ⟨"min", .required, fun b => return { b with low := ← Point.read }⟩,
    ⟨"max", .required, fun b => return { b with high := ← Point.read }⟩ ]

def read : Reader (Box Float) := Json.Record.read fields default

end Box

namespace Viewport

def toJson (v : Viewport Float) : Value :=
  .object [("scale", .number v.scale), ("translation", v.translation.toJson),
    ("surface", v.surface.toJson)]

def fields : List (Json.Record.Field (Viewport Float)) :=
  [ ⟨"scale", .required, fun v => return { v with scale := ← float }⟩,
    ⟨"translation", .required, fun v => return { v with translation := ← Point.read }⟩,
    ⟨"surface", .required, fun v => return { v with surface := ← Point.read }⟩ ]

def read : Reader (Viewport Float) := Json.Record.read fields default

end Viewport

/-! ## Turtles -/

namespace Symbol

def toJson (s : Symbol) : Value :=
  .object [("id", .integer s.id), ("ch", .string s.char.toString)]

def fields : List (Json.Record.Field Symbol) :=
  [ ⟨"id", .required, fun s => return { s with id := ← natural 32 }⟩,
    ⟨"ch", .required, fun s => return { s with char := ← letter }⟩ ]

def read : Reader Symbol := Json.Record.read fields default

end Symbol

namespace Pose

def toJson (p : Pose Float) : Value :=
  .object [("position", p.position.toJson), ("heading", .number p.heading)]

def fields : List (Json.Record.Field (Pose Float)) :=
  [ ⟨"position", .required, fun p => return { p with position := ← Point.read }⟩,
    ⟨"heading", .required, fun p => return { p with heading := ← float }⟩ ]

def read : Reader (Pose Float) := Json.Record.read fields default

end Pose

namespace Pen

/-- The stack is written in the order in which the poses were remembered. -/
def toJson (p : Pen Float) : Value :=
  .object [("position", p.position.toJson), ("heading", .number p.heading),
    ("step", .number p.step), ("angle", .number p.angle),
    ("stack", .array (p.stack.reverse.map Pose.toJson))]

def fields : List (Json.Record.Field (Pen Float)) :=
  [ ⟨"position", .required, fun p => return { p with position := ← Point.read }⟩,
    ⟨"heading", .required, fun p => return { p with heading := ← float }⟩,
    ⟨"step", .required, fun p => return { p with step := ← float }⟩,
    ⟨"angle", .required, fun p => return { p with angle := ← float }⟩,
    ⟨"stack", .required, fun p => return { p with stack := (← list Pose.read).reverse }⟩ ]

def read : Reader (Pen Float) := Json.Record.read fields Pen.initial

end Pen

namespace Setup

def toJson (s : Setup Float) : Value :=
  .object [("start", s.start.toJson), ("heading", .number s.heading), ("step", .number s.step),
    ("angle", .number s.angle)]

def fields : List (Json.Record.Field (Setup Float)) :=
  [ ⟨"start", .required, fun s => return { s with start := ← Point.read }⟩,
    ⟨"heading", .required, fun s => return { s with heading := ← float }⟩,
    ⟨"step", .required, fun s => return { s with step := ← float }⟩,
    ⟨"angle", .required, fun s => return { s with angle := ← float }⟩ ]

def read : Reader (Setup Float) := Json.Record.read fields Setup.standard

end Setup

/-! ## Drawings -/

namespace Segment

def toJson (s : Segment Float) : Value :=
  .object [("from", s.source.toJson), ("to", s.target.toJson)]

def fields : List (Json.Record.Field (Segment Float)) :=
  [ ⟨"from", .required, fun s => return { s with source := ← Point.read }⟩,
    ⟨"to", .required, fun s => return { s with target := ← Point.read }⟩ ]

def read : Reader (Segment Float) := Json.Record.read fields default

end Segment

namespace Drawing

def toJson (d : Drawing Float) : Value :=
  .object [("start", .ofOption Pose.toJson d.start),
    ("segments", .array (d.segments.toList.map Segment.toJson)),
    ("trace", .array (d.trace.toList.map Point.toJson)),
    ("bounds", .ofOption Box.toJson d.bounds)]

def fields : List (Json.Record.Field (Drawing Float)) :=
  [ ⟨"start", .nullable, fun d => return { d with start := ← nullable Pose.read }⟩,
    ⟨"segments", .required, fun d => return { d with segments := (← list Segment.read).toArray }⟩,
    ⟨"trace", .required, fun d => return { d with trace := (← list Point.read).toArray }⟩,
    ⟨"bounds", .nullable, fun d => return { d with bounds := ← nullable Box.read }⟩ ]

def read : Reader (Drawing Float) := Json.Record.read fields {}

end Drawing

/-! ## Options -/

namespace Color

def toJson (c : Color) : Value :=
  .array ([c.red, c.green, c.blue, c.opacity].map fun b => .integer b.toNat)

def read : Reader Color := do
  let (red, green, blue, opacity) ← quadruple (natural 8)
  return ⟨red.toUInt8, green.toUInt8, blue.toUInt8, opacity.toUInt8⟩

end Color

namespace Options

def toJson (o : Options Float) : Value :=
  .object [("page_size", .array [.number o.pageSize.1, .number o.pageSize.2]),
    ("page_margin", .number o.pageMargin), ("line_width", .number o.lineWidth),
    ("canvas_size", .array [.integer o.canvasSize.1, .integer o.canvasSize.2]),
    ("canvas_margin", .number o.canvasMargin), ("background", o.background.toJson),
    ("ink", o.ink.toJson), ("max_symbols", .integer o.maxSymbols),
    ("max_rounds", .integer o.maxRounds)]

def fields : List (Json.Record.Field (Options Float)) :=
  [ ⟨"page_size", .required, fun o => return { o with pageSize := ← pair float }⟩,
    ⟨"page_margin", .required, fun o => return { o with pageMargin := ← float }⟩,
    ⟨"line_width", .required, fun o => return { o with lineWidth := ← float }⟩,
    ⟨"canvas_size", .required, fun o => return { o with canvasSize := ← pair (natural 32) }⟩,
    ⟨"canvas_margin", .required, fun o => return { o with canvasMargin := ← float }⟩,
    ⟨"background", .required, fun o => return { o with background := ← Color.read }⟩,
    ⟨"ink", .required, fun o => return { o with ink := ← Color.read }⟩,
    ⟨"max_symbols", .required, fun o => return { o with maxSymbols := ← longNatural 128 }⟩,
    ⟨"max_rounds", .required, fun o => return { o with maxRounds := ← natural 32 }⟩ ]

def read : Reader (Options Float) := Json.Record.read fields Options.standard

end Options

end LSystem
