import LSystem.Proofs.Random.Place
import Mathlib.Algebra.Order.Floor.Div
import Mathlib.Algebra.Order.Field.Basic
import Mathlib.Algebra.Order.Field.Rat
import Mathlib.Data.FinEnum
import Mathlib.Order.Interval.Finset.Nat
import Mathlib.Tactic.FieldSimp
import Mathlib.Tactic.Linarith

/-!
# How many words fall to a place

The larger a word, the farther behind is the place that a choice puts it at.  So the words of one
place stand side by side, from the first that reaches it to the first that reaches the next, and the
first words of all places divide the whole range as evenly as whole numbers can: each place gets the
`n`-th part of all words, rounded down or up (`card_share`).
-/

namespace LSystem.Random

open Number (twoTo)

/-- The words that a choice among `n` puts at the place `k`. -/
def share (n k : ℕ) : Finset UInt64 := {word | place word n = k}

/-- The words from `a` on that come before `b`. -/
def wordsBetween (a b : ℕ) : Finset UInt64 := {word | a ≤ word.toNat ∧ word.toNat < b}

/-- The number from which on words fall to the place `k` or behind it. -/
def threshold (n k : ℕ) : ℕ := (k * twoTo 64) ⌈/⌉ n

theorem place_mono {v w : UInt64} (h : v ≤ w) (n : ℕ) : place v n ≤ place w n := by
  rw [place, place, Nat.shiftRight_eq_div_pow, Nat.shiftRight_eq_div_pow]
  exact Nat.div_le_div_right (Nat.mul_le_mul_right n (UInt64.le_iff_toNat_le.mp h))

theorem le_place_iff {n k : ℕ} (hn : 0 < n) {word : UInt64} :
    k ≤ place word n ↔ threshold n k ≤ word.toNat := by
  have hdiv : k ≤ word.toNat * n / twoTo 64 ↔ k * twoTo 64 ≤ word.toNat * n :=
    Nat.le_div_iff_mul_le (by decide)
  rw [threshold, ceilDiv_le_iff_le_mul hn, Nat.mul_comm n, ← hdiv, place,
    Nat.shiftRight_eq_div_pow]

theorem card_wordsBetween {a b : ℕ} (hb : b ≤ twoTo 64) : (wordsBetween a b).card = b - a := by
  rw [← Nat.card_Ico a b]
  refine Finset.card_nbij' UInt64.toNat UInt64.ofNat ?_ ?_ ?_ ?_
  · intro word hword
    simpa [wordsBetween] using hword
  · intro x hx
    have hbounds : a ≤ x ∧ x < b := by simpa using hx
    have hsize : x < UInt64.size := Nat.lt_of_lt_of_le hbounds.2 hb
    simpa [wordsBetween, UInt64.toNat_ofNat_of_lt' hsize] using hbounds
  · intro word hword
    exact UInt64.ofNat_toNat
  · intro x hx
    have hbounds : a ≤ x ∧ x < b := by simpa using hx
    exact UInt64.toNat_ofNat_of_lt' (Nat.lt_of_lt_of_le hbounds.2 hb)

theorem threshold_near {n : ℕ} (hn : 0 < n) (k : ℕ) :
    k * twoTo 64 ≤ n * threshold n k ∧ n * threshold n k < k * twoTo 64 + n := by
  refine ⟨le_smul_ceilDiv hn, ?_⟩
  have hle : (k * twoTo 64 + n - 1) / n * n ≤ k * twoTo 64 + n - 1 := Nat.div_mul_le_self _ _
  rw [Nat.mul_comm, threshold, Nat.ceilDiv_eq_add_pred_div]
  omega

theorem card_share_eq {n k : ℕ} (hk : k < n) :
    (share n k).card = threshold n (k + 1) - threshold n k := by
  have hn : 0 < n := Nat.zero_lt_of_lt hk
  have htop : threshold n (k + 1) ≤ twoTo 64 := by
    rw [threshold, ceilDiv_le_iff_le_mul hn]
    exact Nat.mul_le_mul_right _ hk
  have hnext (word : UInt64) : place word n < k + 1 ↔ word.toNat < threshold n (k + 1) := by
    rw [← Nat.not_le, le_place_iff hn, Nat.not_le]
  -- The words of a place end where those of the next one begin.
  have hbetween : share n k = wordsBetween (threshold n k) (threshold n (k + 1)) := by
    refine Finset.filter_congr fun word _ => ?_
    rw [← le_place_iff hn, ← hnext]
    omega
  rw [hbetween, card_wordsBetween htop]

/-- A place gets less than one word more or less than its part of all words. -/
theorem card_share_near {n k : ℕ} (hk : k < n) :
    n * (share n k).card < twoTo 64 + n ∧ twoTo 64 < n * (share n k).card + n := by
  have hn : 0 < n := Nat.zero_lt_of_lt hk
  obtain ⟨hlow, hlow'⟩ := threshold_near hn k
  obtain ⟨hhigh, hhigh'⟩ := threshold_near hn (k + 1)
  rw [Nat.add_mul, Nat.one_mul] at hhigh hhigh'
  rw [card_share_eq hk, Nat.mul_sub]
  omega

theorem eq_div_or_eq_ceilDiv {n d total : ℕ} (habove : n * d < total + n)
    (hbelow : total < n * d + n) : d = total / n ∨ d = total ⌈/⌉ n := by
  have hn : 0 < n := by omega
  rcases Nat.lt_or_ge total (n * d) with hover | hunder
  · -- Too many by less than one part: the part is rounded up.
    refine Or.inr (le_antisymm ?_ ((ceilDiv_le_iff_le_mul hn).mpr hover.le))
    have hceil : total ≤ n * (total ⌈/⌉ n) := le_smul_ceilDiv hn
    have hlt : n * d < n * (total ⌈/⌉ n + 1) := by
      rw [Nat.mul_add, Nat.mul_one]
      omega
    exact Nat.lt_succ_iff.mp (Nat.lt_of_mul_lt_mul_left hlt)
  · refine Or.inl ?_
    have hdiv : total / n = d := Nat.div_eq_of_lt_le (by rwa [Nat.mul_comm]) (by
      rw [Nat.mul_comm, Nat.mul_add, Nat.mul_one]
      exact hbelow)
    exact hdiv.symm

/-- Of all words a place gets the `n`-th part, rounded down or up. -/
theorem card_share {n k : ℕ} (hk : k < n) :
    (share n k).card = twoTo 64 / n ∨ (share n k).card = twoTo 64 ⌈/⌉ n :=
  eq_div_or_eq_ceilDiv (card_share_near hk).1 (card_share_near hk).2

theorem abs_div_sub_lt {n total count : ℚ} (hn : 0 < n) (htotal : 0 < total)
    (habove : n * count < total + n) (hbelow : total < n * count + n) :
    |count / total - 1 / n| < 1 / total := by
  have hsplit : count / total - 1 / n = (n * count - total) / n / total := by field_simp
  rw [hsplit, abs_div, abs_of_pos htotal, div_lt_div_iff_of_pos_right htotal, abs_div,
    abs_of_pos hn, div_lt_one hn, abs_lt]
  constructor <;> linarith

/-- The probability of a place differs from the `n`-th part by less than that of one word. -/
theorem abs_probability_sub_lt {n k : ℕ} (hk : k < n) :
    |((share n k).card : ℚ) / twoTo 64 - 1 / n| < 1 / twoTo 64 := by
  obtain ⟨habove, hbelow⟩ := card_share_near hk
  exact abs_div_sub_lt (Nat.cast_pos.mpr (Nat.zero_lt_of_lt hk)) (Nat.cast_pos.mpr (by decide))
    (by exact_mod_cast habove) (by exact_mod_cast hbelow)

end LSystem.Random
