import LSystem.Text.Utf8

/-!
# Reading JSON

A reader takes glyphs from the front of what is left of a document and gives a value, or the first
fault it meets.  Values are read as the type that is wanted, so what a document holds and whether it
is well formed are found out together, from left to right.
-/

namespace LSystem.Json

open Text (Glyph)

/-- What is wrong with a document. -/
inductive Fault where
  /-- It ends too early. -/
  | ended
  /-- It is not JSON. -/
  | malformed
  /-- It is JSON so far, but not what is wanted. -/
  | mismatched
  deriving DecidableEq, Repr

/-- Reads a value from the front of what is left. -/
abbrev Reader (β : Type) := StateT (List Glyph) (Except Fault) β

def isBlank : Glyph → Bool
  | .char c => c = ' ' || c = '\n' || c = '\t' || c = '\r'
  | .broken _ => false

namespace Reader

def skipBlanks : Reader Unit := modify (List.dropWhile isBlank)

/-- The next glyph, left in place, or nothing at the end. -/
def peek? : Reader (Option Glyph) := do
  return (← get).head?

/-- The first glyph after blanks, left in place.  There has to be one. -/
def peek : Reader Glyph := do
  skipBlanks
  match ← peek? with
  | some g => return g
  | none => throw .ended

def skip : Reader Unit := modify List.tail

/-- Takes the next glyph if it is the given character. -/
def accept (c : Char) : Reader Bool := do
  if (← peek?) = some (.char c) then
    skip
    return true
  else
    return false

def word : List Char → Reader Unit
  | [] => return
  | c :: cs => do
    match ← peek? with
    | none => throw .ended
    | some g =>
      if g = .char c then
        skip
        word cs
      else
        throw .malformed

def delimiter (c : Char) : Reader Unit := do
  if (← peek) = .char c then skip else throw .malformed

/-! ## Sequences between brackets -/

/-- Whether another item follows, after blanks and the comma before it.  A closing bracket is left in
place, and may not come right after a comma. -/
def more (close : Char) (first : Bool) : Reader Bool := do
  let g ← peek
  if g = .char close then return false
  else if first then return true
  else if g = .char ',' then
    skip
    if (← peek) = .char close then throw .malformed else return true
  else
    throw .malformed

/-- Reads items up to the closing bracket, which stays in place.  Every item takes a glyph at least,
so `fuel` beyond the count of glyphs that are left is never used up. -/
def manyWith {σ : Type} (close : Char) (item : σ → Reader σ) :
    (fuel : Nat) → (first : Bool) → σ → Reader σ
  | 0, _, _ => throw .ended
  | fuel + 1, first, s => do
    if ← more close first then
      manyWith close item fuel false (← item s)
    else
      return s

/-- Reads items up to the closing bracket, and the bracket. -/
def many {σ : Type} (close : Char) (item : σ → Reader σ) (s : σ) : Reader σ := do
  let s ← manyWith close item ((← get).length + 1) true s
  delimiter close
  return s

def document {β : Type} (r : Reader β) (glyphs : List Glyph) : Except Fault β := do
  let (value, rest) ← r glyphs
  if rest.all isBlank then return value else throw .malformed

end Reader

end LSystem.Json
