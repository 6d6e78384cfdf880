import LSystem.Number.Binary64

/-!
# The numbers of the plane

Everything that is drawn is measured in numbers of one type.  The program runs on doubles; the
geometry only uses the operations listed here, so that it can also be read over exact numbers.
-/

namespace LSystem

open Number

/-- A type of numbers to measure the plane with.  No law is asked for: comparison need not be total,
and arithmetic may round. -/
class Scalar (α : Type) extends
    Add α, Sub α, Mul α, Div α, Neg α, LT α, LE α, BEq α, OfScientific α where
  decidableLT : DecidableLT α
  decidableLE : DecidableLE α
  ofNat : Nat → α
  abs : α → α
  sqrt : α → α
  /-- The largest whole number that is not above. -/
  floor : α → α
  /-- The smallest whole number that is not below. -/
  ceil : α → α
  /-- The nearest whole number, and of two the one farther from zero. -/
  round : α → α
  isFinite : α → Bool
  /-- Cosine and sine of an angle in degrees. -/
  direction : α → α × α
  /-- The part before the decimal point, held between two bounds. -/
  wholePart : (low high : Int) → α → Int
  /-- Rounding to a count of decimal places, a tie to the even last digit. -/
  fixed : (places : Nat) → α → Fixed places

namespace Scalar

attribute [reducible, instance] decidableLT decidableLE

variable {α : Type} [Scalar α]

/-- The smaller number; the second one unless the first is smaller. -/
@[inline] def lower (a b : α) : α := if a < b then a else b

/-- The larger number; the second one unless the first is larger. -/
@[inline] def upper (a b : α) : α := if b < a then a else b

/-- The smaller number of the two that are numbers. -/
@[inline] def least (a b : α) : α := if a < b then a else if b == b then b else a

/-- The larger number of the two that are numbers. -/
@[inline] def greatest (a b : α) : α := if b < a then a else if b == b then b else a

end Scalar

def radiansPerDegree : Float := 0.017453292519943295

instance : Scalar Float where
  decidableLT := inferInstance
  decidableLE := inferInstance
  ofNat := Float.ofNat
  abs := Float.abs
  sqrt := Float.sqrt
  floor := Float.floor
  ceil := Float.ceil
  round := Float.round
  isFinite := Float.isFinite
  direction degrees :=
    let angle := degrees * radiansPerDegree
    (angle.cos, angle.sin)
  wholePart low high x := (Binary64.ofFloat x).wholePart low high
  fixed places x := (Binary64.ofFloat x).fixed places

end LSystem
