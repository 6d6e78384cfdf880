import LSystem.Proofs.Number.Exact
import LSystem.Proofs.Number.Fixed

/-!
# Decimal text as numbers

A number that is written with a fixed count of decimal places can be read again, and what is read is at
most half a unit of the last place away from the number (`exists_decimal?`).
-/

namespace LSystem.Number

/-! ## Reading -/

/-- The number that some digits stand for, if there are any. -/
def natural? (cs : List Char) : Option ℕ :=
  if cs ≠ [] ∧ cs.all Char.isDigit = true then some (Nat.ofDigitChars 10 cs 0) else none

section Reading

variable {K : Type} [Field K]

/-- Digits with a point among them, or without one. -/
def unsigned? (cs : List Char) : Option K :=
  match cs.splitOn '.' with
  | [whole] => (natural? whole).map (↑)
  | [whole, fraction] =>
    match natural? whole, natural? fraction with
    | some n, some f => some (n + f / 10 ^ fraction.length)
    | _, _ => none
  | _ => none

/-- The number that a text with decimal places stands for. -/
def decimal? (w : String) : Option K :=
  match w.toList with
  | '-' :: cs => (unsigned? cs).map (- ·)
  | cs => unsigned? cs

end Reading

example : decimal? "-0.250" = some (-1 / 4 : ℚ) := by decide +kernel

example : decimal? "NaN" = (none : Option ℚ) := by decide +kernel

/-! ## What is written is read back -/

theorem natural?_of_isDigit {cs : List Char} (hne : cs ≠ []) (hdigits : ∀ c ∈ cs, c.isDigit = true) :
    natural? cs = some (Nat.ofDigitChars 10 cs 0) :=
  if_pos ⟨hne, List.all_eq_true.mpr hdigits⟩

theorem toList_toString (n : ℕ) : (toString n).toList = Nat.toDigits 10 n := Nat.toList_repr

theorem natural?_toString (n : ℕ) : natural? (toString n).toList = some n := by
  have hne : (toString n).toList ≠ [] := by
    rw [toList_toString]
    exact Nat.toDigits_ne_nil
  rw [natural?_of_isDigit hne fun c hc ↦ Fixed.isDigit_of_mem_toString hc, toList_toString,
    Nat.ofDigitChars_ten_toDigits]

theorem toList_pushn (c : Char) (n : ℕ) : ("".pushn c n).toList = List.replicate n c := by
  rw [String.pushn_eq_repeat_push]
  induction n with
  | zero => rfl
  | succ n ih => rw [Nat.repeat, String.toList_push, ih, List.replicate_succ']

/-- Zeros on the left do not count, and they make up for the places that are missing. -/
theorem natural?_padded {places n : ℕ} (hplaces : places ≠ 0) (hn : n < 10 ^ places) :
    let cs := List.replicate (places - (toString n).length) '0' ++ (toString n).toList
    natural? cs = some n ∧ cs.length = places := by
  intro cs
  have hlength : (toString n).toList.length ≤ places := by
    rw [toList_toString]
    exact (Nat.length_toDigits_le_iff (by decide) (Nat.pos_of_ne_zero hplaces)).mpr hn
  have hdigits : ∀ c ∈ cs, c.isDigit = true := by
    intro c hc
    rcases List.mem_append.mp hc with hpad | hdigit
    · rw [List.eq_of_mem_replicate hpad]
      decide
    · exact Fixed.isDigit_of_mem_toString hdigit
  have hne : cs ≠ [] := by
    intro h
    have hnil := (List.append_eq_nil_iff.mp h).2
    rw [toList_toString] at hnil
    exact Nat.toDigits_ne_nil hnil
  constructor
  · rw [natural?_of_isDigit hne hdigits, Nat.ofDigitChars_append, Nat.ofDigitChars_replicate_zero,
      Nat.mul_zero, toList_toString, Nat.ofDigitChars_ten_toDigits]
  · rw [String.length_toList] at hlength
    rw [List.length_append, List.length_replicate, String.length_toList]
    omega

section Written

variable {K : Type} [Field K] [LinearOrder K] [IsStrictOrderedRing K]

omit [LinearOrder K] [IsStrictOrderedRing K] in
theorem unsigned?_whole (n : ℕ) : unsigned? (toString n).toList = some (n : K) := by
  have hpoint : '.' ∉ (toString n).toList :=
    fun hmem ↦ absurd (Fixed.isDigit_of_mem_toString hmem) (by decide)
  unfold unsigned?
  rw [List.splitOn_eq_singleton hpoint]
  simp only [natural?_toString, Option.map_some]

omit [LinearOrder K] [IsStrictOrderedRing K] in
theorem unsigned?_pointed {n f places : ℕ} (hplaces : places ≠ 0) (hf : f < 10 ^ places) :
    unsigned? ((toString n).toList ++ '.' ::
        (List.replicate (places - (toString f).length) '0' ++ (toString f).toList)) =
      some ((n : K) + f / 10 ^ places) := by
  obtain ⟨hfraction, hlength⟩ := natural?_padded hplaces hf
  have hpoint {cs : List Char} (hdigits : natural? cs ≠ none) : '.' ∉ cs := by
    intro hmem
    apply hdigits
    refine if_neg fun h ↦ ?_
    exact absurd (List.all_eq_true.mp h.2 '.' hmem) (by decide)
  have hwhole := natural?_toString n
  unfold unsigned?
  rw [List.splitOn_append_cons_self_of_not_mem (hpoint (by rw [hwhole]; nofun)),
    List.splitOn_eq_singleton (hpoint (by rw [hfraction]; nofun))]
  simp only [hwhole, hfraction, hlength]

theorem unsigned?_unitsText (places units : ℕ) :
    unsigned? (Fixed.unitsText places units).toList = some ((units : K) / 10 ^ places) := by
  have hten : tenTo places = 10 ^ places := rfl
  unfold Fixed.unitsText
  by_cases hplaces : places = 0
  · subst hplaces
    rw [if_pos rfl, unsigned?_whole]
    simp
  · have hmod : units % tenTo places < 10 ^ places := Nat.mod_lt units (Nat.pow_pos (by decide))
    have hsplit : ((units / tenTo places : ℕ) : K) + ((units % tenTo places : ℕ) : K) / 10 ^ places =
        (units : K) / 10 ^ places := by
      have hdiv : (units : K) =
          10 ^ places * ((units / 10 ^ places : ℕ) : K) + ((units % 10 ^ places : ℕ) : K) := by
        exact_mod_cast (Nat.div_add_mod units (10 ^ places)).symm
      rw [hten, eq_div_iff (by positivity), add_mul, div_mul_cancel₀ _ (by positivity)]
      linarith
    rw [if_neg hplaces, ← hsplit, ← unsigned?_pointed hplaces hmod]
    simp [toList_pushn]

theorem decimal?_text {places : ℕ} (negative : Bool) (units : ℕ) :
    decimal? (Fixed.finite negative units : Fixed places).text =
      some ((if negative then -1 else 1) * ((units : K) / 10 ^ places)) := by
  have hunsigned : unsigned? (Fixed.unitsText places units).toList =
      some ((units : K) / 10 ^ places) := unsigned?_unitsText places units
  cases negative with
  | true =>
    have hchars : (Fixed.finite true units : Fixed places).text.toList =
        '-' :: (Fixed.unitsText places units).toList := String.toList_append
    unfold decimal?
    rw [hchars]
    simp [hunsigned]
  | false =>
    have hchars : (Fixed.finite false units : Fixed places).text.toList =
        (Fixed.unitsText places units).toList := String.toList_append
    unfold decimal?
    rw [hchars]
    -- What has no sign does not begin with one.
    split
    · rename_i cs hcs
      have hmem : '-' ∈ (Fixed.unitsText places units).toList := by
        rw [hcs]
        exact List.mem_cons_self
      exact absurd (Fixed.isDigit_or_point hmem) (by decide)
    · simp [hunsigned]

theorem decimal?_toString (i : ℤ) : decimal? (toString i) = some (i : K) := by
  rw [Fixed.toString_eq_text, decimal?_text]
  rcases lt_or_ge i 0 with hi | hi
  · simp [hi, abs_of_neg hi]
  · simp [hi.not_gt, abs_of_nonneg hi]

/-! ## Rounding to decimal places -/

/-- Half a unit of the last of some decimal places. -/
def halfPlace (places : ℕ) : K := 1 / (2 * tenTo places : ℕ)

omit [LinearOrder K] [IsStrictOrderedRing K] in
theorem cast_tenTo (places : ℕ) : ((tenTo places : ℕ) : K) = 10 ^ places := Nat.cast_pow 10 places

omit [LinearOrder K] [IsStrictOrderedRing K] in
theorem halfPlace_eq (places : ℕ) : halfPlace places = (1 / 2 / 10 ^ places : K) := by
  rw [halfPlace, Nat.cast_mul, cast_tenTo, Nat.cast_ofNat, div_div]

theorem halfPlace_nonneg (places : ℕ) : 0 ≤ (halfPlace places : K) :=
  div_nonneg zero_le_one (Nat.cast_nonneg _)

variable [FloorRing K]

theorem abs_nearestEven_sub_le {x : K} (hx : 0 ≤ x) : |(nearestEven x : K) - x| ≤ 1 / 2 := by
  have hwhole : ((⌊x⌋.toNat : ℕ) : K) = (⌊x⌋ : K) := by
    exact_mod_cast Int.toNat_of_nonneg (Int.floor_nonneg.mpr hx)
  have hfloor := Int.floor_le x
  have hlt := Int.lt_floor_add_one x
  unfold nearestEven
  dsimp only
  split_ifs with hround
  · have hle : x - ⌊x⌋ ≤ 2⁻¹ := hround.elim le_of_lt fun h ↦ h.1.le
    rw [hwhole, abs_le]
    constructor <;> linarith
  · have hle : 2⁻¹ ≤ x - ⌊x⌋ := not_lt.mp (not_or.mp hround).1
    push_cast
    rw [hwhole, abs_le]
    constructor <;> linarith

theorem exists_decimal? (direction : K → K × K) (sqrt : K → K) (places : ℕ) (x : K) :
    letI := Scalar.exact K direction sqrt
    ∃ y : K, decimal? (Scalar.fixed places x).text = some y ∧ |y - x| ≤ halfPlace places := by
  let := Scalar.exact K direction sqrt
  let size : K := |x| * (tenTo places : ℕ)
  have hpos : (0 : K) < 10 ^ places := by positivity
  have hsize : (0 : K) ≤ size := by positivity
  have hsign : x = (if decide (x < 0) = true then -1 else 1) * |x| := by
    rcases lt_or_ge x 0 with hx | hx
    · simp [hx, abs_of_neg]
    · simp [hx.not_gt, abs_of_nonneg hx]
  have hunit : |(if decide (x < 0) = true then -1 else 1 : K)| = 1 := by
    split_ifs <;> simp
  refine ⟨_, decimal?_text (decide (x < 0)) (nearestEven size), ?_⟩
  -- The sign is kept apart, so only the magnitude is rounded.
  have herror : (if decide (x < 0) = true then -1 else 1 : K) * (nearestEven size / 10 ^ places) - x =
      (if decide (x < 0) = true then -1 else 1) * ((nearestEven size - size) / 10 ^ places) := by
    have hscaled : size / 10 ^ places = |x| := by
      rw [← cast_tenTo]
      exact mul_div_cancel_right₀ _ (cast_tenTo (K := K) places ▸ hpos.ne')
    rw [sub_div, hscaled, mul_sub, ← hsign]
  rw [herror, abs_mul, hunit, one_mul, abs_div, abs_of_pos hpos, halfPlace_eq]
  exact div_le_div_of_nonneg_right (abs_nearestEven_sub_le hsize) hpos.le

end Written

end LSystem.Number
