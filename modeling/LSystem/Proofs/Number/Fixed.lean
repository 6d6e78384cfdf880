import LSystem.Number.Fixed

/-! The characters of a number that is written with a fixed count of decimal places. -/

namespace LSystem.Number.Fixed

variable {places : Nat}

theorem isDigit_of_mem_toString {c : Char} {n : Nat} (hc : c ∈ (toString n).toList) :
    c.isDigit = true := by
  have hdigits : c ∈ Nat.toDigits 10 n := by rwa [← Nat.toList_repr]
  exact Nat.isDigit_of_mem_toDigits (by decide) (by decide) hdigits

theorem toString_ne_empty (n : Nat) : toString n ≠ "" := by
  intro h
  have hnil : Nat.toDigits 10 n = [] := by
    rw [← Nat.toList_repr]
    exact congrArg String.toList h
  exact Nat.toDigits_ne_nil hnil

theorem eq_of_mem_pushn {c d : Char} {n : Nat} (hc : c ∈ ("".pushn d n).toList) : c = d := by
  rw [String.pushn_eq_repeat_push] at hc
  induction n with
  | zero => exact absurd hc List.not_mem_nil
  | succ n ih =>
    rw [Nat.repeat, String.toList_push, List.mem_append, List.mem_singleton] at hc
    exact hc.elim ih id

/-- Without a sign, only digits and a point are written. -/
theorem isDigit_or_point {c : Char} {units : Nat} (hc : c ∈ (unitsText places units).toList) :
    c.isDigit = true ∨ c = '.' := by
  unfold unitsText at hc
  by_cases hplaces : places = 0
  · rw [if_pos hplaces] at hc
    exact Or.inl (isDigit_of_mem_toString hc)
  · rw [if_neg hplaces] at hc
    simp only [String.toList_append, List.mem_append] at hc
    rcases hc with ((hwhole | hpoint) | hpad) | hfraction
    · exact Or.inl (isDigit_of_mem_toString hwhole)
    · exact Or.inr (List.mem_singleton.mp hpoint)
    · have hzero : c = '0' := eq_of_mem_pushn hpad
      rw [hzero]
      exact Or.inl (by decide)
    · exact Or.inl (isDigit_of_mem_toString hfraction)

/-- A whole number is written as a number without decimal places. -/
theorem toString_eq_text (i : Int) :
    toString i = (Fixed.finite (i < 0) i.natAbs : Fixed 0).text := by
  have hwhole (n : Nat) : unitsText 0 n = toString n := by
    unfold unitsText
    rw [if_pos rfl, show n / tenTo 0 = n from Nat.div_one n]
  cases i with
  | ofNat n =>
    show toString n = "" ++ unitsText 0 n
    rw [hwhole, String.empty_append]
  | negSucc n =>
    rw [decide_eq_true (Int.negSucc_lt_zero n)]
    show "-" ++ toString (n + 1) = "-" ++ unitsText 0 (n + 1)
    rw [hwhole]

theorem unitsText_ne_empty (units : Nat) : unitsText places units ≠ "" := by
  have hwhole : toString (units / tenTo places) ≠ "" := toString_ne_empty _
  unfold unitsText
  by_cases hplaces : places = 0
  · rw [if_pos hplaces]
    exact hwhole
  · rw [if_neg hplaces]
    intro h
    simp only [String.append_eq_empty_iff] at h
    exact hwhole h.1.1.1

end LSystem.Number.Fixed
