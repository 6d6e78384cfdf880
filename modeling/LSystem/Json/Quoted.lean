import LSystem.Json.Reader

/-!
# Strings of JSON

How a string is written, and how one is read.  Writing escapes what has to be escaped and nothing
more; reading also takes every other escape there is.  A string that is read must be sound text; in
one that is passed over, escapes only have to be well formed.
-/

namespace LSystem.Json

open Text (Glyph)

/-! ## Writing -/

def hexDigit (n : Nat) : Char := Nat.digitChar n

def writtenChar (c : Char) : List Char :=
  if c = '"' then ['\\', '"']
  else if c = '\\' then ['\\', '\\']
  else if c = '\x08' then ['\\', 'b']
  else if c = '\x0c' then ['\\', 'f']
  else if c = '\n' then ['\\', 'n']
  else if c = '\r' then ['\\', 'r']
  else if c = '\t' then ['\\', 't']
  else if c.toNat < 0x20 then
    ['\\', 'u', '0', '0', hexDigit (c.toNat / 16), hexDigit (c.toNat % 16)]
  else [c]

def written (s : String) : String :=
  String.ofList ('"' :: (s.toList.flatMap writtenChar ++ ['"']))

/-! ## Reading -/

def hexValue? : Glyph → Option Nat
  | .broken _ => none
  | .char c =>
    if c.isDigit then some (c.toNat - 48)
    else if 'a' ≤ c ∧ c ≤ 'f' then some (c.toNat - 87)
    else if 'A' ≤ c ∧ c ≤ 'F' then some (c.toNat - 55)
    else none

/-- The characters that stand for another one after a backslash, with what they stand for. -/
def shortEscapes : List (Char × Char) :=
  [('"', '"'), ('\\', '\\'), ('/', '/'), ('b', '\x08'), ('f', '\x0c'), ('n', '\n'), ('r', '\r'),
    ('t', '\t')]

namespace Reader

/-- Four hexadecimal digits.  Less than four bytes to the end are too few, whatever they are. -/
def hexUnit : Reader Nat := do
  match ← get with
  | a :: b :: c :: d :: rest =>
    match hexValue? a, hexValue? b, hexValue? c, hexValue? d with
    | some a, some b, some c, some d =>
      set rest
      return ((a * 16 + b) * 16 + c) * 16 + d
    | _, _, _, _ => throw .malformed
  | rest => throw (if rest.foldl (fun n g => n + g.size) 0 < 4 then .ended else .malformed)

def require (c : Char) : Reader Unit := do
  match ← peek? with
  | none => throw .ended
  | some g => if g = .char c then skip else throw .malformed

/-- Whether a unit is the first or the second half of a pair. -/
def isHighHalf (n : Nat) : Bool := 0xd800 ≤ n && n < 0xdc00

@[inherit_doc isHighHalf]
def isLowHalf (n : Nat) : Bool := 0xdc00 ≤ n && n < 0xe000

/-- The character of one unit or of two halves. -/
def unitChar : Reader Char := do
  let n ← hexUnit
  if isLowHalf n then throw .malformed
  else if isHighHalf n then
    require '\\'
    require 'u'
    let m ← hexUnit
    if isLowHalf m then return Char.ofNat (0x10000 + (n - 0xd800) * 0x400 + (m - 0xdc00))
    else throw .malformed
  else return Char.ofNat n

/-- What an escape stands for, after its backslash.  One that is only passed over need not stand for a
character. -/
def escape (sound : Bool) : Reader (Option Char) := do
  match ← peek? with
  | none => throw .ended
  | some (.broken _) => throw .malformed
  | some (.char c) =>
    skip
    match shortEscapes.lookup c with
    | some d => return some d
    | none =>
      if c = 'u' then
        if sound then some <$> unitChar else (fun _ => none) <$> hexUnit
      else throw .malformed

/-- Reads to the closing quote.  `done` holds the characters so far, the last one first, unless some
bytes were broken.  Every round takes a glyph, so `fuel` beyond the count of glyphs is never used
up. -/
def stringRest (sound : Bool) : (fuel : Nat) → (done : Option (List Char)) → Reader String
  | 0, _ => throw .ended
  | fuel + 1, done => do
    match ← peek? with
    | none => throw .ended
    | some g =>
      skip
      match g with
      | .broken _ => stringRest sound fuel none
      | .char c =>
        if c = '"' then
          match done with
          | some cs => return String.ofList cs.reverse
          | none => if sound then throw .malformed else return ""
        else if c = '\\' then
          let e ← escape sound
          stringRest sound fuel (done.map fun cs => e.toList ++ cs)
        else if c.toNat < 0x20 then throw .malformed
        else stringRest sound fuel (done.map (c :: ·))

def string (sound : Bool) : Reader String := do
  require '"'
  stringRest sound ((← get).length + 1) (some [])

end Reader

end LSystem.Json
