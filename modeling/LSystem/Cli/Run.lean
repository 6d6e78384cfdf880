import LSystem.Cli.Arguments
import LSystem.Figure.Render

/-!
# Running the program

What a run does with the contents of its grammar file: it loads the figure and then draws it.  Both
steps are functions; what they need from the outside is handed in, and what they leave is handed
back.
-/

namespace LSystem.Cli

def programName : String := "lindenmayer"

def versionText : String := programName ++ " 0.1.0\n"

def helpText : String :=
  PostScript.unlines [
    "Draw L-System grammars with turtle graphics",
    "",
    "Usage: " ++ programName ++ " [OPTIONS] <FILE> <ROUNDS>",
    "",
    "Arguments:",
    "  <FILE>    Grammar description (JSON)",
    "  <ROUNDS>  Number of rewriting rounds",
    "",
    "Options:",
    "  -f, --format <FORMAT>            Output format [default: eps] [possible values: eps, png, json]",
    "  -o, --output <OUTPUT>            Output file (stdout if omitted; required for png)",
    "      --width <WIDTH>              Canvas width in pixels (png) [default: 1024]",
    "      --height <HEIGHT>            Canvas height in pixels (png) [default: 1024]",
    "  -s, --seed <SEED>                Random seed, overrides the seed in the grammar file",
    "      --max-symbols <MAX_SYMBOLS>  Refuse to run if the expansion could evaluate more symbols than " ++
      "this [default: 50000000]",
    "      --max-rounds <MAX_ROUNDS>    Refuse to run more rounds than this [default: 1024]",
    "  -h, --help                       Print help",
    "  -V, --version                    Print version" ]

/-- Why a run fails. -/
inductive RunError where
  /-- The file could not be read, or is no description. -/
  | cannotLoad (path : String)
  | load (error : LoadError)
  | outputRequired
  | cannotCreate (path : String)
  | cannotWrite (path : String)
  | render (error : RenderError)

def RunError.message : RunError → String
  | .cannotLoad path => "cannot load " ++ path
  | .load error => error.message
  | .outputRequired => "--output is required for png"
  | .cannotCreate path => "cannot create " ++ path
  | .cannotWrite path => "cannot write " ++ path
  | .render error => error.message

/-- The name at the end of a path, if the path ends in one. -/
def fileName? (path : String) : Option String :=
  match ((path.splitOn "/").filter fun part => part ≠ "" ∧ part ≠ ".").getLast? with
  | some name => if name = ".." then none else some name
  | none => none

/-- What is written. -/
inductive Product where
  | document (bytes : ByteArray)
  | picture (canvas : Canvas)

/-- What a run leaves: how it ended, and what was written, even if it ended badly. -/
structure Result where
  error : Option RunError
  product : Option Product
  notices : List (Notice Float)

namespace Invocation

/-- The figure to draw, from the contents of the grammar file.  Without any seed it gets the given
one. -/
def load (inv : Invocation) (contents : Except ReadError ByteArray) (seed : UInt64) :
    Noted Float (Except RunError (Figure Float)) :=
  match Description.ofFile contents with
  | .error _ => { value := .error (.cannotLoad inv.file) }
  | .ok description =>
    let loaded := description.figure seed
    { value := (loaded.value.mapError .load).map fun figure =>
        match inv.seed with
        | some n => figure.withSeed (UInt64.ofNat n)
        | none => figure
      notices := loaded.notices }

def options (inv : Invocation) : Options Float :=
  { Options.standard with
    canvasSize := (inv.width, inv.height)
    maxSymbols := inv.maxSymbols
    maxRounds := inv.maxRounds }

/-- What is left by writing a document that has its place. -/
def written {β : Type} (o : Outcome Float (Except RenderError β × Sink)) : Result :=
  { error := match o.value.1 with
      | .ok _ => none
      | .error error => some (.render error)
    product := some (.document o.value.2.taken)
    notices := o.notices }

/-- Draws a figure.  `writable` tells whether the output can be put in its place; for a document that
matters first of all, and for a picture only once it has been painted. -/
def draw (inv : Invocation) (figure : Figure Float) (writable : Bool) : Result :=
  match inv.format, inv.output, writable with
  | .png, none, _ => { error := some .outputRequired, product := none, notices := [] }
  | .png, some path, _ =>
    let o := figure.raster inv.rounds inv.options
    match o.value with
    | .error error => { error := some (.render error), product := none, notices := o.notices }
    | .ok canvas =>
      if writable then { error := none, product := some (.picture canvas), notices := o.notices }
      else { error := some (.cannotWrite path), product := none, notices := o.notices }
  | _, some path, false =>
    { error := some (.cannotCreate path), product := none, notices := [] }
  | .eps, _, _ =>
    written (figure.eps inv.rounds ((fileName? inv.file).getD "") inv.options {})
  | .json, _, _ => written (figure.json inv.rounds inv.options {})

end Invocation

end LSystem.Cli
