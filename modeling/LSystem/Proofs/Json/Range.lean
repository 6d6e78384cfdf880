import LSystem.Proofs.Json.Yields
import LSystem.Proofs.Number.Finite

/-!
# The range of numbers that are read

A number too large for a double is refused, and one too small for any becomes zero, so what is read
as a double is always a number (`yields_float`).  The digits that are kept fit 64 bits; a power of
ten that enlarges them is followed by a check, and one that shrinks them needs none.
-/

namespace LSystem.Json

open LSystem.Number (Within AtLeastTwo)

namespace Numeral

/-! ## Powers of ten -/

-- No law of rounding is tight enough for the last powers, so the powers are gone through.
theorem atLeastTwo_power {n : Nat} (hn : 0 < n) (h : n ≤ maxPower) :
    AtLeastTwo (power n).toModel.unpack := by
  have hall : ∀ k : Fin 308, AtLeastTwo (power (k + 1)).toModel.unpack := by
    decide +kernel
  have hlt : n - 1 < 308 := by
    have hmax : maxPower = 308 := rfl
    omega
  have hpred : n - 1 + 1 = n := Nat.sub_add_cancel hn
  have hpower := hall ⟨n - 1, hlt⟩
  rwa [Fin.val_mk, hpred] at hpower

theorem isFinite_power {n : Nat} (h : n ≤ maxPower) : (power n).isFinite = true := by
  rcases Nat.eq_zero_or_pos n with rfl | hn
  · decide
  · exact (atLeastTwo_power hn h).isFinite

theorem within_shrink (times : Nat) {x : Float} {t : Int} (h : Within t x.toModel.unpack)
    (ht : -1022 ≤ t) (ht' : t ≤ 972) : Within t (shrink times x).toModel.unpack := by
  induction times generalizing x with
  | zero => exact h
  | succ times ih =>
    rw [shrink]
    split
    · exact h
    · have hpower : AtLeastTwo (power maxPower).toModel.unpack :=
        atLeastTwo_power (by decide) (Nat.le_refl _)
      exact ih (Number.within_div h hpower ht ht')

/-! ## The number of a numeral -/

theorem append_le {significand : Nat} (h : significand ≤ maxSignificand) (ds : List Nat) :
    (append significand ds).1 ≤ maxSignificand := by
  induction ds generalizing significand with
  | nil => exact h
  | cons d ds ih =>
    rw [append]
    split
    · exact ih ‹_›
    · exact h

theorem within_significand {significand : Nat} (h : significand ≤ maxSignificand) :
    Within 67 (Float.ofNat significand).toModel.unpack := by
  have hlt : significand < 2 ^ 64 := Nat.lt_of_le_of_lt h (by decide)
  exact Number.within_ofNat hlt

theorem isFinite_of_scaled? {significand : Nat} {exponent : Int} {x : Float}
    (h : significand ≤ maxSignificand) (hx : scaled? significand exponent = some x) :
    x.isFinite = true := by
  have hsignificand := within_significand h
  unfold scaled? at hx
  dsimp only at hx
  split_ifs at hx with hnonneg hfits hinf hzero
  · -- The product has been found not to be infinite.
    obtain rfl := Option.some.inj hx
    have hpower : (power exponent.toNat).isFinite = true := isFinite_power (by omega)
    exact Number.isFinite_mul hsignificand.isFinite hpower (Bool.eq_false_iff.mpr hinf)
  · obtain rfl := Option.some.inj hx
    exact hsignificand.isFinite
  · obtain rfl := Option.some.inj hx
    -- One power at most is left after the largest ones.
    have hshrunk := within_shrink (((-exponent).toNat - 1) / maxPower) hsignificand (by decide)
      (by decide)
    have hpower : AtLeastTwo (power ((-exponent).toNat -
        ((-exponent).toNat - 1) / maxPower * maxPower)).toModel.unpack := by
      have hmax : maxPower = 308 := rfl
      rw [hmax]
      apply atLeastTwo_power
      · omega
      · rw [hmax]
        omega
    exact (Number.within_div hshrunk hpower (by decide) (by decide)).isFinite

/-- An integer that was kept exactly, or a double that is a number. -/
def InRange : Number → Prop
  | .integer i => i.natAbs ≤ maxSignificand
  | .real x => x.isFinite = true

theorem inRange_of_number? {n : Numeral} {number : Number} (h : n.number? = some number) :
    InRange number := by
  have hwhole : (append 0 n.whole).1 ≤ maxSignificand := append_le (Nat.zero_le _) n.whole
  unfold number? at h
  dsimp only at h
  split at h
  · obtain rfl := Option.some.inj h
    show (if n.negative = true then -((append 0 n.whole).1 : Int)
      else (append 0 n.whole).1).natAbs ≤ maxSignificand
    split <;> omega
  · -- Digits of the fraction are appended to those that were kept, within the same bound.
    obtain ⟨x, hx, rfl⟩ := Option.map_eq_some_iff.mp h
    have hfinite : x.isFinite = true := isFinite_of_scaled? (append_le hwhole _) hx
    show (if n.negative = true then -x else x).isFinite = true
    split
    · exact Number.isFinite_neg hfinite
    · exact hfinite

end Numeral

namespace Reader

theorem yields_number : Yields number Numeral.InRange := by
  unfold number
  refine yields_bind_trivial fun n => ?_
  cases hn : n.number? with
  | none => exact yields_throw _
  | some _ => exact yields_pure (Numeral.inRange_of_number? hn)

/-- A double that is read is a number: neither an infinity nor what is not a number. -/
theorem yields_float : Yields float fun x => x.isFinite = true := by
  have hnumber : Yields anyNumber Numeral.InRange :=
    yields_bind_trivial fun _ => yields_ite (fun _ => yields_number) fun _ => yields_mismatch
  refine hnumber.bind fun n hn => ?_
  cases n with
  | integer i =>
    have hfinite : (Float.ofNat i.natAbs).isFinite = true :=
      (Numeral.within_significand hn).isFinite
    apply yields_pure
    split
    · exact Number.isFinite_neg hfinite
    · exact hfinite
  | real x => exact yields_pure hn

end Reader

end LSystem.Json
