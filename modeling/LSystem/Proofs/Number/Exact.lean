import Mathlib.Data.Rat.Floor
import LSystem.Proofs.Number.Order

/-!
# Exact numbers

The plane measured in a field whose elements have whole parts.  Nothing rounds, and every number is
ordered; which way a heading points, and what a root is, is left open.
-/

namespace LSystem

open LSystem.Number (Fixed tenTo)

variable {K : Type} [Field K] [LinearOrder K] [FloorRing K]

/-- The whole number nearest to a number that is not negative; of two equally near ones, the even
one. -/
def nearestEven (x : K) : Nat :=
  let whole := ⌊x⌋.toNat
  let rest := x - ⌊x⌋
  if rest < 2⁻¹ ∨ rest = 2⁻¹ ∧ whole % 2 = 0 then whole else whole + 1

/-- The field as numbers of the plane. -/
@[reducible] def Scalar.exact (K : Type) [Field K] [LinearOrder K] [FloorRing K]
    (direction : K → K × K) (sqrt : K → K) : Scalar K where
  decidableLT := inferInstance
  decidableLE := inferInstance
  ofNat n := n
  abs x := |x|
  sqrt
  floor x := ⌊x⌋
  ceil x := ⌈x⌉
  round x := if 0 ≤ x then (⌊x + 2⁻¹⌋ : K) else ⌈x - 2⁻¹⌉
  isFinite _ := true
  direction
  wholePart low high x := max low (min high (if 0 ≤ x then ⌊x⌋ else ⌈x⌉))
  fixed places x := .finite (x < 0) (nearestEven (|x| * (tenTo places : K)))

theorem ordered_exact (direction : K → K × K) (sqrt : K → K) :
    letI := Scalar.exact K direction sqrt
    Ordered fun _ : K => True := by
  let := Scalar.exact K direction sqrt
  refine ⟨?_, fun _ _ hba => not_lt.mp hba⟩
  exact
    { irrefl := fun a => lt_irrefl a.1
      trans := fun a b c hab hbc => lt_trans (a := a.1) hab hbc
      incomp_trans := fun a b c hab hbc =>
        ⟨not_lt.mpr (le_trans (not_lt.mp hbc.1) (not_lt.mp hab.1)),
          not_lt.mpr (le_trans (not_lt.mp hab.2) (not_lt.mp hbc.2))⟩ }

/-- Directions of whole quarter turns; any other heading counts as the turn below. -/
def quarterTurn (degrees : ℚ) : ℚ × ℚ :=
  match (⌊degrees / 90⌋ % 4) with
  | 0 => (1, 0)
  | 1 => (0, 1)
  | 2 => (-1, 0)
  | _ => (0, -1)

end LSystem
