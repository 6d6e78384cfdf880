import LSystem.Json.Quoted
import LSystem.Number.Text

/-!
# Writing JSON

Documents as values, and their two written forms: compact, without any blanks, and indented by two
spaces.  A number that is not finite is written as null.
-/

namespace LSystem.Json

/-- A document. -/
inductive Value where
  | null
  | bool (b : Bool)
  | integer (i : Int)
  | number (x : Float)
  | string (s : String)
  | array (items : List Value)
  | object (entries : List (String × Value))
  deriving Inhabited

namespace Value

/-- A value that is left out, or the null in its place. -/
def ofOption {β : Type} (f : β → Value) : Option β → Value
  | some b => f b
  | none => .null

def numberText (x : Float) : String := (Number.documentText? x).getD "null"

/-- An opening bracket, items with commas between them, and a closing bracket. -/
def bracketed (left right : String) (items : List String) : String :=
  left ++ ",".intercalate items ++ right

mutual

def compact : Value → String
  | .null => "null"
  | .bool b => if b then "true" else "false"
  | .integer i => toString i
  | .number x => numberText x
  | .string s => written s
  | .array items => bracketed "[" "]" (compactItems items)
  | .object entries => bracketed "\x7b" "\x7d" (compactEntries entries)

def compactItems : List Value → List String
  | [] => []
  | v :: vs => v.compact :: compactItems vs

def compactEntries : List (String × Value) → List String
  | [] => []
  | (key, v) :: es => (written key ++ ":" ++ v.compact) :: compactEntries es

end

/-- A line end and the blanks at the start of the next line. -/
def newLine (depth : Nat) : String := "\n".pushn ' ' (2 * depth)

/-- Items on lines of their own, one step further in than the brackets. -/
def indented (left right : String) (depth : Nat) (items : List String) : String :=
  if items.isEmpty then left ++ right
  else
    left ++ newLine (depth + 1) ++ ("," ++ newLine (depth + 1)).intercalate items ++
      newLine depth ++ right

mutual

/-- The form with an item to a line, at a depth. -/
def pretty (depth : Nat) : Value → String
  | .array items => indented "[" "]" depth (prettyItems (depth + 1) items)
  | .object entries => indented "\x7b" "\x7d" depth (prettyEntries (depth + 1) entries)
  | .null => "null"
  | .bool b => if b then "true" else "false"
  | .integer i => toString i
  | .number x => numberText x
  | .string s => written s

def prettyItems (depth : Nat) : List Value → List String
  | [] => []
  | v :: vs => v.pretty depth :: prettyItems depth vs

def prettyEntries (depth : Nat) : List (String × Value) → List String
  | [] => []
  | (key, v) :: es => (written key ++ ": " ++ v.pretty depth) :: prettyEntries depth es

end

end Value

end LSystem.Json
