import LSystem.Number.Power

/-!
# Command line arguments

What the program is asked to do.  Arguments are taken from left to right, and the first one that does
not fit ends the reading.  Two arguments have no name: the file and the number of rounds.  A setting
takes its value after an equals sign or from the next argument, and with a short name also from what
follows its letter; it may come once.  After two dashes every argument is one without a name.
-/

namespace LSystem.Cli

/-- What comes out. -/
inductive Format where
  | eps
  | png
  | json
  deriving DecidableEq, Repr

/-- A run of the program. -/
structure Invocation where
  /-- The grammar file. -/
  file : String
  rounds : Nat
  format : Format
  /-- Where the output goes, if not to the terminal. -/
  output : Option String
  width : Nat
  height : Nat
  /-- A seed instead of the one in the file. -/
  seed : Option Nat
  maxSymbols : Nat
  maxRounds : Nat
  deriving DecidableEq, Repr

/-- What the arguments ask for. -/
inductive Request where
  | run (invocation : Invocation)
  | help
  | version
  deriving DecidableEq, Repr

/-! ## Values -/

/-- The natural number that decimal digits spell; there has to be one. -/
def digits? (cs : List Char) : Option Nat :=
  if !cs.isEmpty && cs.all Char.isDigit then
    some (cs.foldl (fun n c => n * 10 + (c.toNat - 48)) 0)
  else none

/-- A natural number below a power of two, with or without a plus sign. -/
def natural? (bits : Nat) (value : String) : Option Nat :=
  let n? := match value.toList with
    | '+' :: cs => digits? cs
    | cs => digits? cs
  n?.filter (· < Number.twoTo bits)

/-- The same with a sign of either kind, which leaves zero alone below zero. -/
def signed? (bits : Nat) (value : String) : Option Nat :=
  match value.toList with
  | '-' :: cs => (digits? cs).filter (· = 0)
  | _ => natural? bits value

def path? (value : String) : Option String := if value.isEmpty then none else some value

def format? (value : String) : Option Format :=
  [("eps", Format.eps), ("png", .png), ("json", .json)].lookup value

/-! ## Settings -/

/-- What can be set by name. -/
inductive Setting where
  | format
  | output
  | width
  | height
  | seed
  | maxSymbols
  | maxRounds
  deriving DecidableEq, Repr

def Setting.byName : List (String × Setting) :=
  [("format", format), ("output", output), ("width", width), ("height", height), ("seed", seed),
    ("max-symbols", maxSymbols), ("max-rounds", maxRounds)]

/-- The settings that also have a short name. -/
def Setting.byLetter : List (Char × Setting) := [('f', format), ('o', output), ('s', seed)]

/-- What has been read so far. -/
structure Draft where
  file : Option String := none
  rounds : Option Nat := none
  format : Option Format := none
  output : Option String := none
  width : Option Nat := none
  height : Option Nat := none
  seed : Option Nat := none
  maxSymbols : Option Nat := none
  maxRounds : Option Nat := none

namespace Draft

def once {β : Type} (old new : Option β) : Option (Option β) :=
  if old.isSome || new.isNone then none else some new

def set (d : Draft) (setting : Setting) (value : String) : Option Draft :=
  match setting with
  | .format => do return { d with format := ← once d.format (format? value) }
  | .output => do return { d with output := ← once d.output (path? value) }
  | .width => do return { d with width := ← once d.width (signed? 32 value) }
  | .height => do return { d with height := ← once d.height (signed? 32 value) }
  | .seed => do return { d with seed := ← once d.seed (natural? 64 value) }
  | .maxSymbols => do return { d with maxSymbols := ← once d.maxSymbols (natural? 128 value) }
  | .maxRounds => do return { d with maxRounds := ← once d.maxRounds (signed? 32 value) }

def place (d : Draft) (value : String) : Option Draft :=
  if d.file.isNone then do return { d with file := ← once d.file (path? value) }
  else do return { d with rounds := ← once d.rounds (signed? 32 value) }

/-- The run that is asked for, if nothing is missing. -/
def invocation? (d : Draft) : Option Invocation := do
  return {
    file := ← d.file
    rounds := ← d.rounds
    format := d.format.getD .eps
    output := d.output
    width := d.width.getD 1024
    height := d.height.getD 1024
    seed := d.seed
    maxSymbols := d.maxSymbols.getD 50000000
    maxRounds := d.maxRounds.getD 1024 }

end Draft

/-! ## Reading -/

/-- What one argument is. -/
inductive Token where
  | plain (value : String)
  | separator
  | named (setting : Setting) (value : Option String)
  | help
  | version
  | unknown
  deriving DecidableEq, Repr

/-- The value after an equals sign, or all there is, or nothing if there is nothing. -/
def attached : List Char → Option String
  | [] => none
  | '=' :: cs => some (String.ofList cs)
  | cs => some (String.ofList cs)

/-- What an argument is.  A single dash is nothing special. -/
def Token.ofArgument (argument : String) : Token :=
  match argument.toList with
  | ['-', '-'] => .separator
  | '-' :: '-' :: cs =>
    let name := String.ofList (cs.takeWhile (· ≠ '='))
    let value := match cs.dropWhile (· ≠ '=') with
      | [] => none
      | _ :: rest => some (String.ofList rest)
    match Setting.byName.lookup name, name, value with
    | some setting, _, _ => .named setting value
    | none, "help", none => .help
    | none, "version", none => .version
    | none, _, _ => .unknown
  | '-' :: c :: cs =>
    match Setting.byLetter.lookup c with
    | some setting => .named setting (attached cs)
    | none => if c = 'h' then .help else if c = 'V' then .version else .unknown
  | _ => .plain argument

/-- Reads arguments.  `waiting` is the setting whose value comes next. -/
def readFrom (d : Draft) : (waiting : Option Setting) → List String → Option Request
  | none, [] => d.invocation?.map .run
  | some _, [] => none
  | some setting, argument :: rest =>
    match Token.ofArgument argument with
    | .plain value =>
      match d.set setting value with
      | some d => readFrom d none rest
      | none => none
    | _ => none
  | none, argument :: rest =>
    match Token.ofArgument argument with
    | .plain value =>
      match d.place value with
      | some d => readFrom d none rest
      | none => none
    | .separator => do ((← rest.foldlM Draft.place d).invocation?).map .run
    | .named setting none => readFrom d (some setting) rest
    | .named setting (some value) =>
      match d.set setting value with
      | some d => readFrom d none rest
      | none => none
    | .help => some .help
    | .version => some .version
    | .unknown => none

def read? (arguments : List String) : Option Request :=
  readFrom {} none arguments

end LSystem.Cli
