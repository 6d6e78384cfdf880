import LSystem.Json.Typed

/-!
# Records

A record is an object with known keys, each at most once and in any order; keys that are not known
are passed over with their values.  It may also be given as an array of its fields in their order.
-/

namespace LSystem.Json

open Reader
open Text (Glyph)

/-- Which fields may be absent. -/
inductive Presence where
  /-- Never absent. -/
  | required
  /-- Absent from an object, but not from an array. -/
  | nullable
  /-- Absent from an object, and from an array at its end. -/
  | optional
  deriving DecidableEq, Repr

namespace Record

/-- A field of a record that is built up in a value of type `σ`. -/
structure Field (σ : Type) where
  name : String
  presence : Presence
  read : σ → Reader σ

variable {σ : Type}

/-- Takes one entry of an object.  `seen` holds the names of the fields that have been read. -/
def entry (fields : List (Field σ)) : List String × σ → Reader (List String × σ)
  | (seen, s) => do
    let key ← string true
    match fields.find? (·.name = key) with
    | some field =>
      -- A field that comes again is refused before its value is looked at.
      if seen.contains key then throw .mismatched
      delimiter ':'
      return (key :: seen, ← field.read s)
    | none =>
      delimiter ':'
      skipValue
      return (seen, s)

/-- Takes the fields from an object, after its opening brace. -/
def fromObject (fields : List (Field σ)) (s : σ) : Reader σ := do
  let (seen, s) ← manyWith '\x7d' (entry fields) ((← get).length + 1) true ([], s)
  if fields.any fun f => f.presence = .required && !seen.contains f.name then throw .mismatched
  delimiter '\x7d'
  return s

/-- Takes the fields from an array, after its opening bracket. -/
def fromArray (first : Bool) : List (Field σ) → σ → Reader σ
  | [], s => do
    delimiter ']'
    return s
  | field :: fields, s => do
    if ← more ']' first then
      fromArray false fields (← field.read s)
    else if field.presence = .optional then
      fromArray first fields s
    else
      throw .mismatched

/-- Reads a record, starting from the value with no field read. -/
def read (fields : List (Field σ)) (s : σ) : Reader σ := do
  let g ← peek
  if g = .char '\x7b' then
    skip
    fromObject fields s
  else if g = .char '[' then
    skip
    fromArray true fields s
  else
    mismatch

end Record

end LSystem.Json
