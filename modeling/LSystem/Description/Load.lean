import LSystem.Description.Basic
import LSystem.Notice
import LSystem.Grammar.Basic

/-!
# From a description to a grammar

Building checks a description from the front: the actions, the initial word and the rules, in the
order of the document, and then the parameters.  The first fault is what is reported.
-/

namespace LSystem

open Text (Glyph)

/-- Why a file cannot be read as text. -/
inductive ReadError where
  | notFound
  /-- Its bytes are no text. -/
  | notText
  /-- Anything else, in the words of the system. -/
  | other (reason : String)
  deriving DecidableEq, Repr

def ReadError.message : ReadError → String
  | .notFound => "No such file or directory (os error 2)"
  | .notText => "stream did not contain valid UTF-8"
  | .other reason => reason

/-- A number that a parameter cannot be. -/
inductive ParameterFault where
  | notFinite (value : Float)
  | notPositive (value : Float)

def ParameterFault.message : ParameterFault → String
  | .notFinite value => "expected a finite number, got " ++ Number.plainText value
  | .notPositive value => "expected a positive number, got " ++ Number.plainText value

/-- Why there is no grammar. -/
inductive LoadError where
  | unreadable (error : ReadError)
  | json (fault : Json.Fault)
  /-- A section that has to be there is not. -/
  | missingField (name : String)
  /-- A key is not a single character. -/
  | invalidSymbolKey (key : String)
  | duplicateKey (table key : String)
  | invalidParameter (name : String) (fault : ParameterFault)
  | grammar (error : GrammarError)

def Json.Fault.message : Json.Fault → String
  | .ended => "the document ends inside a value"
  | .malformed => "the document is not JSON"
  | .mismatched => "a value is not of the expected kind"

def LoadError.message : LoadError → String
  | .unreadable error => "failed to read grammar file: " ++ error.message
  | .json fault => "malformed grammar JSON: " ++ fault.message
  | .missingField name => "missing mandatory field \x60" ++ name ++ "\x60"
  | .invalidSymbolKey key => "symbol keys must be a single character, got " ++ Text.quoted key
  | .duplicateKey table key =>
    "key " ++ Text.quoted key ++ " appears more than once in \x60" ++ table ++ "\x60"
  | .invalidParameter name fault => "invalid parameter \x60" ++ name ++ "\x60: " ++ fault.message
  | .grammar error => error.message

namespace Description

/-! ## Reading -/

def ofGlyphs (glyphs : List Glyph) : Except LoadError Description :=
  (read.document glyphs).mapError .json

def ofText (s : String) : Except LoadError Description := ofGlyphs (Glyph.ofString s)

/-- The description in bytes, of which only what is looked at has to be text. -/
def ofBytes (bytes : ByteArray) : Except LoadError Description := ofGlyphs (Glyph.decode bytes)

/-- The description in a file, all of which has to be text. -/
def ofFile (contents : Except ReadError ByteArray) : Except LoadError Description := do
  let glyphs := Glyph.decode (← contents.mapError .unreadable)
  if glyphs.all (·.char?.isSome) then ofGlyphs glyphs else throw (.unreadable .notText)

/-! ## Building -/

def present {β : Type} (name : String) : Option β → Except LoadError β
  | some value => .ok value
  | none => .error (.missingField name)

def symbolKey (key : String) : Except LoadError Char :=
  match key.toList with
  | [c] => .ok c
  | _ => .error (.invalidSymbolKey key)

/-- Gives the character of an entry its action. -/
def bindEntry (g : Grammar) (key name : String) : Except LoadError Grammar := do
  match g.bindNamed (← symbolKey key) name with
  | (.ok _, g) => .ok g
  | (.error error, _) => .error (.grammar error)

/-- Adds the rules of an entry.  `seen` holds the characters that had one. -/
def addEntry (seen : List Char) (g : Grammar) (key : String) (words : List String) :
    Except LoadError (List Char × Grammar) := do
  let c ← symbolKey key
  if seen.contains c then .error (.duplicateKey "rules" key)
  else .ok (c :: seen, words.foldl (fun g w => g.addRule c w) g)

def grammar (d : Description) : Except LoadError Grammar := do
  let actions ← present "actions" d.actions
  let g ← actions.foldlM (fun g (key, name) => bindEntry g key name) {}
  -- The initial word is put into the grammar before the rules are looked for.
  let g := g.setInitial (← present "axiom" d.initial)
  let rules ← present "rules" d.rules
  let (_, g) ← rules.foldlM (fun (seen, g) (key, words) => addEntry seen g key words) ([], g)
  return g

def seedWord? (d : Description) : Option UInt64 := d.seed.map UInt64.ofInt

def finite (name : String) (value : Float) : Except LoadError Float :=
  if value.isFinite then .ok value else .error (.invalidParameter name (.notFinite value))

def positive (name : String) (value : Float) : Except LoadError Float := do
  let value ← finite name value
  if 0.0 < value then .ok value else .error (.invalidParameter name (.notPositive value))

/-- The setup that is described; what is absent is as usual. -/
def setup (d : Description) : Except LoadError (Setup Float) := do
  let p := d.parameters.getD {}
  let usual : Setup Float := .standard
  let step ← p.step.elim (.ok usual.step) (positive "step")
  let angle ← p.angle.elim (.ok usual.angle) (finite "angle")
  match p.start with
  | none => return { usual with step, angle }
  | some (x, y, heading) =>
    let x ← finite "start" x
    let y ← finite "start" y
    let heading ← finite "start" heading
    return { start := ⟨x, y⟩, heading, step, angle }

end Description

/-- What a grammar that has been built is worth telling: the symbols that do nothing, if any. -/
def Grammar.notices {α : Type} (g : Grammar) : List (Notice α) :=
  match g.inert with
  | [] => []
  | w => [.inert (Word.text w)]

end LSystem
