/-!
# Rounding a quotient

`roundDiv num den` is the whole number nearest to `num / den`, and the even one of two that are
equally near.  Its two laws: it lies within half a unit (`roundDiv_near`), and a tie is even
(`roundDiv_even_of_tie`).
-/

namespace LSystem.Number

/-- The natural number nearest to `num / den`; of two equally near ones, the even one. -/
def roundDiv (num den : Nat) : Nat :=
  if 2 * (num % den) < den ∨ (2 * (num % den) = den ∧ num / den % 2 = 0) then
    num / den
  else
    num / den + 1

/-- The rounded quotient is at most half a unit away from the exact one. -/
theorem roundDiv_near (num : Nat) {den : Nat} (hden : 0 < den) :
    2 * num ≤ (2 * roundDiv num den + 1) * den ∧ 2 * roundDiv num den * den ≤ 2 * num + den := by
  have hsplit : num = den * (num / den) + num % den := (Nat.div_add_mod num den).symm
  have hlt : num % den < den := Nat.mod_lt num hden
  generalize num / den = q at *
  generalize num % den = r at *
  subst hsplit
  unfold roundDiv
  have hq : (den * q + r) / den = q := by
    rw [Nat.add_comm, Nat.add_mul_div_left _ _ hden, Nat.div_eq_of_lt hlt, Nat.zero_add]
  have hr : (den * q + r) % den = r := by
    rw [Nat.add_comm, Nat.add_mul_mod_self_left, Nat.mod_eq_of_lt hlt]
  rw [hq, hr]
  split
  · constructor <;> grind
  · constructor <;> grind

/-- When the quotient lies halfway between two whole numbers, the even one is taken. -/
theorem roundDiv_even_of_tie {num den : Nat} (htie : 2 * (num % den) = den) :
    roundDiv num den % 2 = 0 := by
  unfold roundDiv
  split <;> omega

end LSystem.Number
