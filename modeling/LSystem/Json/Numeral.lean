import LSystem.Json.Reader
import LSystem.Number.Power

/-!
# Numerals

A numeral is read in two steps: its written form, and the number that it stands for.  An integer that
fits 64 bits is kept exactly.  Any other number is made of as many leading digits as fit 64 bits and
a power of ten, which are put together by a single multiplication or division of doubles; so a long
numeral need not give the nearest double.
-/

namespace LSystem.Json

open LSystem.Number (twoTo)
open Text (Glyph)

/-- A number of a document. -/
inductive Number where
  | integer (value : Int)
  | real (value : Float)

/-- The written form of a number, as the values of its digits.  An exponent has its sign with it. -/
structure Numeral where
  negative : Bool
  whole : List Nat
  fraction : Option (List Nat)
  exponent : Option (Bool × List Nat)
  deriving DecidableEq, Repr

def digit? : Glyph → Option Nat
  | .char c => if c.isDigit then some (c.toNat - 48) else none
  | .broken _ => none

def isDigit (g : Glyph) : Bool := (digit? g).isSome

/-! ## The written form -/

namespace Reader

def digits : Reader (List Nat) := do
  let glyphs ← get
  set (glyphs.dropWhile isDigit)
  return (glyphs.takeWhile isDigit).filterMap digit?

/-- Takes the digits that come next, at least one. -/
def someDigits : Reader (List Nat) := do
  match ← peek? with
  | none => throw .ended
  | some g => if isDigit g then digits else throw .malformed

/-- The digits before the point: a zero alone, or digits that start otherwise. -/
def wholeDigits : Reader (List Nat) := do
  let ds ← someDigits
  if ds.head? = some 0 ∧ 1 < ds.length then throw .malformed else return ds

def numeral : Reader Numeral := do
  let negative ← accept '-'
  let whole ← wholeDigits
  let fraction ← if ← accept '.' then some <$> someDigits else pure none
  let marked ← accept 'e' <||> accept 'E'
  let exponent ←
    if marked then
      let below ← accept '-'
      let _ ← if below then pure true else accept '+'
      some <$> (Prod.mk below <$> someDigits)
    else pure none
  return { negative, whole, fraction, exponent }

end Reader

/-! ## The number -/

namespace Numeral

def maxSignificand : Nat := twoTo 64 - 1

/-- Appends digits to a number as long as it fits 64 bits, and counts the digits that do not go in. -/
def append (significand : Nat) : List Nat → Nat × Nat
  | [] => (significand, 0)
  | d :: ds =>
    if significand * 10 + d ≤ maxSignificand then append (significand * 10 + d) ds
    else (significand, ds.length + 1)

def ofDigits (ds : List Nat) : Nat := ds.foldl (fun n d => n * 10 + d) 0

/-- The largest power of ten that is used at once. -/
def maxPower : Nat := 308

def power (n : Nat) : Float := Float.ofScientific 1 false n

/-- Divides by the largest power of ten a number of times, or until nothing is left. -/
def shrink : (times : Nat) → Float → Float
  | 0, x => x
  | times + 1, x => if x == 0.0 then x else shrink times (x / power maxPower)

/-- `significand * 10 ^ exponent`, unless it is too large for a double. -/
def scaled? (significand : Nat) (exponent : Int) : Option Float :=
  let x := Float.ofNat significand
  if 0 ≤ exponent then
    if exponent ≤ maxPower then
      let y := x * power exponent.toNat
      if y.isInf then none else some y
    else if x == 0.0 then some x
    else none
  else
    let n := (-exponent).toNat
    let times := (n - 1) / maxPower
    some (shrink times x / power (n - times * maxPower))

/-- The number that a numeral stands for, if it is in range. -/
def number? (n : Numeral) : Option Number :=
  let (significand, beyond) := append 0 n.whole
  -- A zero with a minus sign is no integer: integers have one zero only.
  if n.fraction.isNone && n.exponent.isNone && beyond = 0 &&
      (!n.negative || (0 < significand && significand ≤ twoTo 63)) then
    some (.integer (if n.negative then -significand else significand))
  else
    let fraction := n.fraction.getD []
    let (significand, dropped) := append significand fraction
    -- Whole digits that did not go in raise the exponent; fraction digits that did lower it.
    let shift : Int := beyond - (fraction.length - dropped : Nat)
    let exponent : Int := match n.exponent with
      | none => 0
      | some (below, ds) => if below then -ofDigits ds else ofDigits ds
    (scaled? significand (shift + exponent)).map fun x => .real (if n.negative then -x else x)

end Numeral

def Reader.number : Reader Number := do
  match (← numeral).number? with
  | some n => return n
  | none => throw .malformed

end LSystem.Json
