import LSystem.Number.Fixed
import LSystem.Number.Power
import LSystem.Number.Rounding

/-!
# The exact value of a double

A double is a sign with a whole number times a power of two, an infinity, or not a number.  Reading
that off the bits is what every exact rule on decimal text starts from.
-/

namespace LSystem.Number

/-- The value of a double: `± mantissa * 2 ^ exponent`, an infinity, or not a number. -/
inductive Binary64 where
  | finite (negative : Bool) (mantissa : Nat) (exponent : Int)
  | infinite (negative : Bool)
  | nan
  deriving DecidableEq, Repr

namespace Binary64

/-- Reads the sign, the eleven exponent bits and the fifty-two fraction bits. -/
def ofFloat (x : Float) : Binary64 :=
  let bits := x.toBits
  let negative := bits >>> 63 == 1
  let biased := ((bits >>> 52) &&& 0x7ff).toNat
  let fraction := (bits &&& 0xfffffffffffff).toNat
  if biased = 0x7ff then
    if fraction = 0 then .infinite negative else .nan
  else if biased = 0 then
    .finite negative fraction (-1074)
  else
    .finite negative (fraction + twoTo 52) (biased - 1075)

/-- The nearest number with `places` decimal places; a tie goes to the even last digit. -/
def fixed (places : Nat) : Binary64 → Fixed places
  | .finite negative mantissa exponent =>
    let units := mantissa * tenTo places
    .finite negative <|
      if 0 ≤ exponent then units <<< exponent.toNat
      else roundDiv units (1 <<< (-exponent).toNat)
  | .infinite negative => .infinite negative
  | .nan => .nan

/-- The part before the decimal point, held between `low` and `high`; not a number counts as zero. -/
def wholePart (low high : Int) : Binary64 → Int
  | .finite negative mantissa exponent =>
    let size : Int :=
      if 0 ≤ exponent then mantissa <<< exponent.toNat else mantissa >>> (-exponent).toNat
    max low (min high (if negative then -size else size))
  | .infinite negative => if negative then low else high
  | .nan => 0

end Binary64

end LSystem.Number
