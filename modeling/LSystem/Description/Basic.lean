import LSystem.Json.Forms
import LSystem.Number.Power

/-!
# Descriptions

What a grammar file holds, before it is checked: every section may be absent, and a key may come more
than once.  The document of a description leaves out a seed and parameters that are absent and writes
null for any other section that is.
-/

namespace LSystem

open Json (Value Reader)
open Json.Reader (float integer nullable list triple text entries)

/-- Parameters of the turtle, each of which may be absent. -/
structure Parameters where
  step : Option Float := none
  /-- The size of a turn, in degrees. -/
  angle : Option Float := none
  /-- Position and heading. -/
  start : Option (Float × Float × Float) := none

namespace Parameters

/-- The entry of a field, if the field is there. -/
def entry {β : Type} (name : String) (f : β → Value) (value : Option β) : List (String × Value) :=
  (value.map fun v => (name, f v)).toList

def toJson (p : Parameters) : Value :=
  .object <|
    entry "step" .number p.step ++ entry "angle" .number p.angle ++
      entry "start" (fun (x, y, heading) => .array [.number x, .number y, .number heading]) p.start

def fields : List (Json.Record.Field Parameters) :=
  [ ⟨"step", .optional, fun p => return { p with step := ← nullable float }⟩,
    ⟨"angle", .optional, fun p => return { p with angle := ← nullable float }⟩,
    ⟨"start", .optional, fun p => return { p with start := ← nullable (triple float) }⟩ ]

def read : Reader Parameters := Json.Record.read fields {}

end Parameters

/-- What a grammar file holds. -/
structure Description where
  /-- The seed, as a signed number of 64 bits. -/
  seed : Option Int := none
  parameters : Option Parameters := none
  /-- Characters with the names of their actions. -/
  actions : Option (List (String × String)) := none
  /-- The initial word. -/
  initial : Option String := none
  /-- Characters with the words that may replace them. -/
  rules : Option (List (String × List String)) := none

namespace Description

open Parameters (entry)

/-- The document of entries, one of whose keys may come more than once. -/
def entriesJson {β : Type} (f : β → Value) (es : List (String × β)) : Value :=
  .object (es.map fun (key, value) => (key, f value))

def toJson (d : Description) : Value :=
  .object <|
    entry "seed" .integer d.seed ++ entry "parameters" Parameters.toJson d.parameters ++
      [("actions", .ofOption (entriesJson .string) d.actions),
        ("axiom", .ofOption .string d.initial),
        ("rules", .ofOption (entriesJson fun ws => .array (ws.map .string)) d.rules)]

def fields : List (Json.Record.Field Description) :=
  [ ⟨"seed", .optional, fun d =>
      return { d with seed := ← nullable (integer (-Number.twoTo 63) (Number.twoTo 63 - 1)) }⟩,
    ⟨"parameters", .optional, fun d =>
      return { d with parameters := ← nullable Parameters.read }⟩,
    ⟨"actions", .optional, fun d => return { d with actions := ← nullable (entries text) }⟩,
    ⟨"axiom", .optional, fun d => return { d with initial := ← nullable text }⟩,
    ⟨"rules", .optional, fun d =>
      return { d with rules := ← nullable (entries (list text)) }⟩ ]

def read : Reader Description := Json.Record.read fields {}

end Description

end LSystem
