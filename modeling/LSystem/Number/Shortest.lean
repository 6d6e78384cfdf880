import LSystem.Number.Binary64

/-!
# The shortest decimal of a double

Among the decimals that read back as a double, `shortest` takes one with the fewest digits, and of
those the one nearest to the double's exact value.  A double stands for every real number in the
interval that rounds to it; the search looks for the coarsest decimal grid with a point in that
interval.  If a grid has one, then one of the two grid points next to the value is in it, so only
those two are tried; and a finer grid contains every point of a coarser one, so the digit counts
that succeed are all counts from the least one on, and halving finds that.
-/

namespace LSystem.Number

/-- The number `digits * 10 ^ exponent`. -/
structure Decimal where
  digits : Nat
  exponent : Int
  deriving DecidableEq, Repr

/-- Which of two equally near decimals is taken. -/
inductive Tie where
  | even
  | up
  deriving DecidableEq, Repr

/-- The real numbers that round to a double: all numbers between `low / den` and `high / den` around
`value / den`, the ends included when `closed`. -/
structure Interval where
  low : Nat
  value : Nat
  high : Nat
  den : Nat
  closed : Bool

namespace Interval

/-- The interval of `mantissa * 2 ^ exponent`.  It reaches halfway to the neighbouring doubles; below
a power of two the neighbour is twice as near.  An even mantissa wins its ties. -/
def ofFinite (mantissa : Nat) (exponent : Int) : Interval :=
  let below := if mantissa = twoTo 52 ∧ -1074 < exponent then 1 else 2
  let unit := 1 <<< (exponent - 2).toNat
  { low := (4 * mantissa - below) * unit
    value := 4 * mantissa * unit
    high := (4 * mantissa + 2) * unit
    den := 1 <<< (2 - exponent).toNat
    closed := mantissa % 2 = 0 }

/-- The size of a step of `10 ^ grid`, and the factor that brings the interval to the same scale. -/
def steps (r : Interval) (grid : Int) : Nat × Nat :=
  (tenTo grid.toNat * r.den, tenTo (-grid).toNat)

/-- Whether the number `point / (den * factor)` is in the interval. -/
def contains (r : Interval) (factor point : Nat) : Bool :=
  let low := r.low * factor
  let high := r.high * factor
  if r.closed then low ≤ point && point ≤ high else low < point && point < high

/-- The multiple of `10 ^ grid` in the interval that is nearest to the value, out of the two next to
it. -/
def nearest? (tie : Tie) (r : Interval) (grid : Int) : Option Nat :=
  let (step, factor) := r.steps grid
  let value := r.value * factor
  let count := value / step
  let before := value - count * step
  let after := step - before
  match r.contains factor (count * step), r.contains factor ((count + 1) * step) with
  | false, false => none
  | true, false => some count
  | false, true => some (count + 1)
  | true, true =>
    if before < after then some count
    else if after < before then some (count + 1)
    else match tie with
      | .even => some (if count % 2 = 0 then count else count + 1)
      | .up => some (count + 1)

/-- The exponent of the first digit.  `binary` is the exponent of the leading bit; the estimate taken
from it is at most one too small. -/
def magnitude (r : Interval) (binary : Int) : Int :=
  -- 78913 / 262144 is just below the decimal logarithm of two; the offset makes up for that when
  -- the exponent is negative.
  let estimate := (binary * 78913 - 256).fdiv 262144
  let (step, factor) := r.steps (estimate + 1)
  if step ≤ r.value * factor then estimate + 1 else estimate

/-- The least count of digits from `least` to `most` that suffices, given that `most` does. -/
def digitCount (tie : Tie) (r : Interval) (first : Int) (least most : Nat) : Nat :=
  if h : least < most then
    let middle := (least + most) / 2
    if (r.nearest? tie (first + 1 - middle)).isSome then r.digitCount tie first least middle
    else r.digitCount tie first (middle + 1) most
  else
    most
termination_by most - least

end Interval

/-- The decimal without zeros at the end of its digits.  `fuel` bounds their count. -/
def Decimal.trimZeros : (fuel : Nat) → Decimal → Decimal
  | 0, d => d
  | fuel + 1, d =>
    if d.digits ≠ 0 ∧ d.digits % 10 = 0 then
      Decimal.trimZeros fuel ⟨d.digits / 10, d.exponent + 1⟩
    else d

/-- The shortest decimal that reads back as the double `mantissa * 2 ^ exponent`, the nearest one of
its length.  Seventeen digits always suffice. -/
def shortest (tie : Tie) (mantissa : Nat) (exponent : Int) : Decimal :=
  if mantissa = 0 then ⟨0, 0⟩
  else
    let r := Interval.ofFinite mantissa exponent
    let first := r.magnitude (mantissa.log2 + exponent)
    let grid := first + 1 - r.digitCount tie first 1 17
    -- The value may round up to a power of ten, whose zeros are no digits of the shortest form.
    Decimal.trimZeros 18 ⟨(r.nearest? tie grid).getD 0, grid⟩

end LSystem.Number
