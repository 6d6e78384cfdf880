import LSystem.Json.Numeral
import LSystem.Json.Quoted

/-!
# Passing over values

A value that nothing asks for is passed over.  It must be JSON, but numbers may have any size,
strings any escapes, and brackets any depth: the brackets that are open are kept in a list.
-/

namespace LSystem.Json.Reader

open Text (Glyph)

/-- A numeral that is passed over.  One that ends too early is as bad as any other. -/
def skipNumeral : Reader Unit := fun glyphs =>
  match numeral glyphs with
  | .ok (_, rest) => .ok ((), rest)
  | .error _ => .error .malformed

/-- The key of an entry and the colon after it. -/
def skipKey : Reader Unit := do
  let _ ← string false
  delimiter ':'

def closing? (g : Glyph) : Option Char :=
  if g = .char '[' then some ']' else if g = .char '\x7b' then some '\x7d' else none

/-- What comes next while passing over a value: a value, or what follows one in the innermost bracket
that is open. -/
inductive SkipState where
  | value
  | inside (first : Bool)
  deriving DecidableEq

/-- Passes over a value and whatever closes the brackets in `opened`, the innermost one first.  Every
second round takes a glyph, so twice as much `fuel` as there are glyphs is never used up. -/
def skipWith : (fuel : Nat) → SkipState → (opened : List Char) → Reader Unit
  | 0, _, _ => throw .ended
  | _ + 1, .inside _, [] => return
  | fuel + 1, .inside first, close :: opened => do
    if ← more close first then
      if close = '\x7d' then
        skipKey
      skipWith fuel .value (close :: opened)
    else
      skip
      skipWith fuel (.inside false) opened
  | fuel + 1, .value, opened => do
    let g ← peek
    match closing? g with
    | some close =>
      skip
      skipWith fuel (.inside true) (close :: opened)
    | none =>
      if g = .char 'n' then word "null".toList
      else if g = .char 't' then word "true".toList
      else if g = .char 'f' then word "false".toList
      else if g = .char '"' then let _ ← string false
      else if g = .char '-' || isDigit g then skipNumeral
      else throw .malformed
      skipWith fuel (.inside false) opened

def skipValue : Reader Unit := do
  skipWith (2 * (← get).length + 2) .value []

end LSystem.Json.Reader
