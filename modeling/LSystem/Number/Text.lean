import LSystem.Number.Shortest

/-!
# Written numbers

Two ways to write a double with the fewest digits that read back: plain, as messages show it, and
the way of documents, where a number always shows that it is not an integer and a very large or
very small one has an exponent.
-/

namespace LSystem.Number

namespace Decimal

/-- Count of digits before the decimal point; zero or negative below one tenth. -/
def wholeDigits (d : Decimal) : Int :=
  (toString d.digits).length + d.exponent

/-- Positional notation.  `whole` closes the text of a whole number. -/
def positional (whole : String) (d : Decimal) : String :=
  let digits := (toString d.digits).toList
  let point := d.wholeDigits
  String.ofList <|
    if 0 ≤ d.exponent then digits ++ List.replicate d.exponent.toNat '0' ++ whole.toList
    else if 0 < point then digits.take point.toNat ++ '.' :: digits.drop point.toNat
    else '0' :: '.' :: (List.replicate (-point).toNat '0' ++ digits)

/-- Scientific notation: one digit before the point, and an exponent with its sign. -/
def scientific (d : Decimal) : String :=
  let exponent := d.wholeDigits - 1
  let power := (if exponent < 0 then "e-" else "e+") ++ toString exponent.natAbs
  match (toString d.digits).toList with
  | first :: [] => String.ofList [first] ++ power
  | first :: rest => String.ofList (first :: '.' :: rest) ++ power
  | [] => power

end Decimal

/-- A number as messages show it: never an exponent, and no point in a whole number. -/
def plainText (x : Float) : String :=
  match Binary64.ofFloat x with
  | .finite negative mantissa exponent =>
    signText negative ++ (shortest .up mantissa exponent).positional ""
  | .infinite negative => signText negative ++ "inf"
  | .nan => "NaN"

/-- A finite number as documents show it, or nothing: positional when the exponent of the first digit
is from -5 to 15, and scientific otherwise. -/
def documentText? (x : Float) : Option String :=
  match Binary64.ofFloat x with
  | .finite negative mantissa exponent =>
    let d := shortest .even mantissa exponent
    let first := d.wholeDigits - 1
    some <| signText negative ++
      if -5 ≤ first ∧ first < 16 then d.positional ".0" else d.scientific
  | .infinite _ | .nan => none

end LSystem.Number
