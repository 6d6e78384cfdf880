import LSystem.Number.Power

/-!
# Numbers with a fixed count of decimal places

What a number looks like once it is rounded to so many places.  The sign is kept apart from the
magnitude, so that a number which rounds to zero from below still shows its minus sign.
-/

namespace LSystem.Number

/-- A number rounded to `places` decimal places: `units` counts steps of `10 ^ -places`. -/
inductive Fixed (places : Nat) where
  | finite (negative : Bool) (units : Nat)
  | infinite (negative : Bool)
  | nan
  deriving DecidableEq, Repr

def signText (negative : Bool) : String :=
  if negative then "-" else ""

namespace Fixed

variable {places : Nat}

/-- Whole part and fraction, the fraction padded with zeros to `places` digits; no point is written
when there are no places. -/
def unitsText (places units : Nat) : String :=
  let whole := toString (units / tenTo places)
  let fraction := toString (units % tenTo places)
  if places = 0 then whole
  else whole ++ "." ++ "".pushn '0' (places - fraction.length) ++ fraction

def text : Fixed places → String
  | .finite negative units => signText negative ++ unitsText places units
  | .infinite negative => signText negative ++ "inf"
  | .nan => "NaN"

end Fixed

end LSystem.Number
