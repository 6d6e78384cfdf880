import LSystem.Json.Skip
import LSystem.Number.Power

/-!
# Reading values of a wanted type

Each reader passes over blanks and takes one value.  If what it finds is of another type, then the
value there is still read as far as it is a number, a word or a string, as a fault in it comes first.
-/

namespace LSystem.Json.Reader

open LSystem.Number (twoTo)
open Text (Glyph)

def mismatch {β : Type} : Reader β := do
  let g ← peek
  if g = .char 'n' then word "null".toList
  else if g = .char 't' then word "true".toList
  else if g = .char 'f' then word "false".toList
  else if g = .char '"' then let _ ← string true
  else if g = .char '-' || isDigit g then let _ ← number
  else if (closing? g).isNone then throw .malformed
  throw .mismatched

def anyNumber : Reader Number := do
  let g ← peek
  if g = .char '-' || isDigit g then number else mismatch

def float : Reader Float := do
  match ← anyNumber with
  | .integer i => return if i < 0 then -(Float.ofNat i.natAbs) else Float.ofNat i.natAbs
  | .real x => return x

def integer (low high : Int) : Reader Int := do
  match ← anyNumber with
  | .integer i => if low ≤ i ∧ i ≤ high then return i else throw .mismatched
  | .real _ => throw .mismatched

def natural (bits : Nat) : Reader Nat := do
  return (← integer 0 (twoTo bits - 1)).toNat

/-- A natural number that may be larger than 64 bits, in plain digits.  Too large a number is
malformed, like anything that is not such a number. -/
def longNatural (bits : Nat) : Reader Nat := do
  let g ← peek
  if isDigit g then
    let n := Numeral.ofDigits (← wholeDigits)
    if n < twoTo bits then return n else throw .malformed
  else
    throw .malformed

def text : Reader String := do
  if (← peek) = .char '"' then string true else mismatch

def letter : Reader Char := do
  match (← text).toList with
  | [c] => return c
  | _ => throw .mismatched

def nullable {β : Type} (r : Reader β) : Reader (Option β) := do
  if (← peek) = .char 'n' then
    word "null".toList
    return none
  else
    some <$> r

def opening (c : Char) : Reader Unit := do
  if (← peek) = .char c then skip else mismatch

def list {β : Type} (item : Reader β) : Reader (List β) := do
  opening '['
  return (← many ']' (fun done => (· :: done) <$> item) []).reverse

/-- The next item of an array that has to have one. -/
def component {β : Type} (first : Bool) (item : Reader β) : Reader β := do
  if ← more ']' first then item else throw .mismatched

def pair {β : Type} (item : Reader β) : Reader (β × β) := do
  opening '['
  let a ← component true item
  let b ← component false item
  delimiter ']'
  return (a, b)

def triple {β : Type} (item : Reader β) : Reader (β × β × β) := do
  opening '['
  let a ← component true item
  let b ← component false item
  let c ← component false item
  delimiter ']'
  return (a, b, c)

def quadruple {β : Type} (item : Reader β) : Reader (β × β × β × β) := do
  opening '['
  let a ← component true item
  let b ← component false item
  let c ← component false item
  let d ← component false item
  delimiter ']'
  return (a, b, c, d)

def entry {β : Type} (value : Reader β) : Reader (String × β) := do
  let key ← string true
  delimiter ':'
  return (key, ← value)

/-- The entries of an object in their order.  A key may come more than once. -/
def entries {β : Type} (value : Reader β) : Reader (List (String × β)) := do
  opening '\x7b'
  return (← many '\x7d' (fun done => (· :: done) <$> entry value) []).reverse

end LSystem.Json.Reader
