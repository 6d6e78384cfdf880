import Mathlib

/-!
# Doubles that stay finite

How far the digits of a double reach is measured by its total exponent.  Rounding raises it by one at
most, a product adds the exponents of its factors, and a quotient by two or more lowers the exponent
by as much as rounding can raise it; so a number can be divided again and again and never leaves the
range of doubles (`Within.div`).
-/

namespace LSystem.Number

open Float.Model (Format UnpackedFloat totalExponent)
open Float.Model.UnpackedFloat

/-! ## Doubles by their exponents -/

/-- A number whose first digit is at most `t` places before the point. -/
inductive Within (t : Int) : UnpackedFloat → Prop where
  | zero (s : Sign) : Within t (.zero s)
  | finite {s : Sign} {m : Nat} {e : Int} {hm : 0 < m} (h : totalExponent m e ≤ t) :
      Within t (.finite s m e hm)

/-- A number whose exponent a double has room for. -/
inductive Fits : UnpackedFloat → Prop where
  | zero (s : Sign) : Fits (.zero s)
  | finite {s : Sign} {m : Nat} {e : Int} {hm : 0 < m} (h : e ≤ 971) : Fits (.finite s m e hm)

/-- A number that is two or more, or minus two or less. -/
inductive AtLeastTwo : UnpackedFloat → Prop where
  | finite {s : Sign} {m : Nat} {e : Int} {hm : 0 < m} (h : 2 ≤ totalExponent m e) :
      AtLeastTwo (.finite s m e hm)

instance (t : Int) : DecidablePred (Within t)
  | .zero s => isTrue (.zero s)
  | .finite _ _ _ _ => decidable_of_iff _ ⟨.finite, fun | .finite h => h⟩
  | .infinity _ => isFalse nofun
  | .notANumber => isFalse nofun

instance : DecidablePred AtLeastTwo
  | .zero _ => isFalse nofun
  | .finite _ _ _ _ => decidable_of_iff _ ⟨.finite, fun | .finite h => h⟩
  | .infinity _ => isFalse nofun
  | .notANumber => isFalse nofun

variable {u v : UnpackedFloat} {t t' : Int}

theorem Within.fits (h : Within t u) (ht : t ≤ 972) : Fits u := by
  cases h with
  | zero s => exact .zero s
  | finite h =>
    unfold totalExponent at h
    exact .finite (by omega)

theorem Fits.neg (h : Fits u) : Fits u.neg := by
  cases h with
  | zero s => exact .zero _
  | finite h => exact .finite h

/-! ## Packing -/

section Packing

variable {b : BitVec Format.binary64.numBits}

/-- All exponents but the last one are those of numbers. -/
theorem within_unpack (hexponent : (unpackExponent b).toNat < 2047)
    (ht : ((unpackExponent b).toNat : Int) - 1022 ≤ t) :
    Within t (unpack Format.binary64 b) ∧ Fits (unpack Format.binary64 b) := by
  have hones : unpackExponent b ≠ -1#11 := by
    intro h
    rw [h] at hexponent
    exact absurd hexponent (by decide)
  have hbias : (Format.binary64.exponentBias : Int) + (52 : Nat) = 1075 := rfl
  unfold unpack
  simp only [hones, if_false]
  split_ifs with hzero hmantissa
  · exact ⟨.zero _, .zero _⟩
  · -- A subnormal double has less than 53 digits, at the least exponent.
    have hlt : (unpackMantissa b).toNat < 2 ^ 52 := (unpackMantissa b).isLt
    have hne : (unpackMantissa b).toNat ≠ 0 := by
      intro h
      exact hmantissa (BitVec.eq_of_toNat_eq h)
    have hlog : (unpackMantissa b).toNat.log2 < 52 := (Nat.log2_lt hne).mpr hlt
    have hexponent' : (unpackExponent b).toNat = 0 := by
      rw [hzero]
      rfl
    refine ⟨.finite ?_, .finite ?_⟩
    · show ((unpackMantissa b).toNat.log2 : Int) + 1 +
        (((unpackExponent b).toNat : Int) - (Format.binary64.exponentBias + (52 : Nat)) + 1) ≤ t
      omega
    · show ((unpackExponent b).toNat : Int) - (Format.binary64.exponentBias + (52 : Nat)) + 1 ≤ 971
      omega
  · have hlt : (1#1 ++ unpackMantissa b).toNat < 2 ^ 53 := (1#1 ++ unpackMantissa b).isLt
    have hne : (1#1 ++ unpackMantissa b).toNat ≠ 0 := by
      have hle : (1#1).toNat <<< 52 ≤ (1#1).toNat <<< 52 ||| (unpackMantissa b).toNat :=
        Nat.left_le_or
      rw [BitVec.toNat_append]
      exact Nat.ne_of_gt (Nat.lt_of_lt_of_le (by decide) hle)
    have hlog : (1#1 ++ unpackMantissa b).toNat.log2 < 53 := (Nat.log2_lt hne).mpr hlt
    refine ⟨.finite ?_, .finite ?_⟩
    · show ((1#1 ++ unpackMantissa b).toNat.log2 : Int) + 1 +
        (((unpackExponent b).toNat : Int) - (Format.binary64.exponentBias + (52 : Nat))) ≤ t
      omega
    · show ((unpackExponent b).toNat : Int) - (Format.binary64.exponentBias + (52 : Nat)) ≤ 971
      omega

theorem fits_unpack (h : (unpack Format.binary64 b).isFinite = true) :
    Fits (unpack Format.binary64 b) := by
  have hlt : (unpackExponent b).toNat < 2048 := (unpackExponent b).isLt
  have hne : (unpackExponent b).toNat ≠ 2047 := by
    intro h2047
    have hones : unpackExponent b = -1#11 := BitVec.eq_of_toNat_eq h2047
    unfold unpack at h
    simp only [hones, if_true] at h
    split_ifs at h <;> nomatch h
  exact (within_unpack (by omega) (Int.le_refl _)).2

theorem unpack_pack (u : UnpackedFloat) :
    (Float.Model.pack u).unpack = unpack Format.binary64 (pack Format.binary64 u) := rfl

theorem unpackExponent_pack (hu : Fits u) :
    (unpackExponent (pack Format.binary64 u)).toNat < 2047 ∧
      ∀ t, Within t u → -1022 ≤ t →
        ((unpackExponent (pack Format.binary64 u)).toNat : Int) - 1022 ≤ t := by
  cases hu with
  | zero s =>
    have hzero : (unpackExponent (pack Format.binary64 (.zero s))).toNat = 0 := by
      simp [pack, packedZero]
    rw [hzero]
    refine ⟨by decide, ?_⟩
    intro t _ ht
    omega
  | @finite s m e hm he =>
    have hbias : Format.binary64.exponentBias = 1023 := rfl
    have hroom : ¬ 2 ^ 11 ≤ (e + Format.binary64.exponentBias + (52 : Nat)).toNat + 1 := by
      rw [hbias]
      omega
    unfold pack
    dsimp only
    rw [if_neg hroom]
    split_ifs with hnormal
    · rw [unpackExponent_packComponents, BitVec.toNat_ofNat]
      have hm : m.log2 + 1 = 53 := hnormal
      rw [hbias]
      refine ⟨?_, ?_⟩
      · omega
      · intro t ht hleast
        cases ht with
        | finite h =>
          unfold totalExponent at h
          omega
    · rw [unpackExponent_packComponents]
      have hzero : (0#11).toNat = 0 := rfl
      refine ⟨by decide, ?_⟩
      intro t _ ht
      rw [hzero]
      omega

/-- A number far from the largest doubles is still a number after packing, and reaches no further. -/
theorem Within.unpack_pack (h : Within t u) (ht : -1022 ≤ t) (ht' : t ≤ 972) :
    Within t (Float.Model.pack u).unpack := by
  have hexponent := unpackExponent_pack (h.fits ht')
  exact (within_unpack hexponent.1 (hexponent.2 t h ht)).1

theorem Within.isFinite (h : Within t u) : u.isFinite = true := by
  cases h with
  | zero s => rfl
  | finite h => rfl

theorem AtLeastTwo.isFinite (h : AtLeastTwo u) : u.isFinite = true := by
  cases h
  rfl

theorem Fits.isFinite_unpack_pack (h : Fits u) : (Float.Model.pack u).unpack.isFinite = true := by
  have hexponent := (unpackExponent_pack h).1
  have hwithin : Within 1024 (unpack Format.binary64 (pack Format.binary64 u)) :=
    (within_unpack hexponent (by omega)).1
  exact hwithin.isFinite

/-- Packing a finite number may give an infinity, but never what is not a number. -/
theorem isFinite_unpack_pack_of_not_isInf (h : u.isFinite = true)
    (hinf : (Float.Model.pack u).unpack.isInf = false) :
    (Float.Model.pack u).unpack.isFinite = true := by
  cases u with
  | infinity s => nomatch h
  | notANumber => nomatch h
  | zero s => exact (Fits.zero s).isFinite_unpack_pack
  | finite s m e hm =>
    by_cases he : e ≤ 971
    · exact (Fits.finite he).isFinite_unpack_pack
    · have hbias : Format.binary64.exponentBias = 1023 := rfl
      have hroom : 2 ^ 11 ≤ (e + Format.binary64.exponentBias + (52 : Nat)).toNat + 1 := by
        rw [hbias]
        omega
      have hpack : pack Format.binary64 (.finite s m e hm) = packedInfinity Format.binary64 s :=
        if_pos hroom
      rw [LSystem.Number.unpack_pack, hpack] at hinf
      cases s <;> nomatch hinf

end Packing

/-! ## Rounding -/

theorem mantissa_shiftRight (em : ExtendedMantissa) (k : Nat) :
    (em >>> k).mantissa = em.mantissa / 2 ^ k := by
  induction k with
  | zero => exact (Nat.div_one _).symm
  | succ k ih =>
    show (em >>> k).mantissa / 2 = _
    rw [ih, Nat.div_div_eq_div_mul, Nat.pow_succ]

theorem mantissa_ofMantissaAndAccuracy (m : Nat) (accuracy : Accuracy) :
    (ExtendedMantissa.ofMantissaAndAccuracy m accuracy).mantissa = m := by
  rcases accuracy with _ | o
  · rfl
  · cases o <;> rfl

theorem roundedMantissa_le (em : ExtendedMantissa) : em.roundedMantissa ≤ em.mantissa + 1 := by
  rcases em with ⟨m, _ | _, _ | _⟩
  · exact Nat.le_succ m
  · exact Nat.le_succ m
  · show m + m % 2 ≤ m + 1
    omega
  · exact Nat.le_refl _

theorem totalExponent_shift {m k : Nat} (h : m / 2 ^ k ≠ 0) (e : Int) :
    totalExponent (m / 2 ^ k) (e + k) = totalExponent m e := by
  have hm : m ≠ 0 := by
    rintro rfl
    exact h (Nat.zero_div _)
  have hle : 2 ^ k ≤ m := by
    by_contra hlt
    exact h (Nat.div_eq_of_lt (Nat.lt_of_not_le hlt))
  have hk : k ≤ m.log2 := (Nat.le_log2 hm).mpr hle
  have hlog : (m / 2 ^ k).log2 = m.log2 - k := by
    rw [Nat.log2_eq_log_two, Nat.log2_eq_log_two, Nat.log_div_base_pow]
  unfold totalExponent
  omega

theorem log2_le_of_le_succ {q r : Nat} (hr : r ≤ q + 1) : r.log2 ≤ q.log2 + 1 := by
  rcases Nat.eq_zero_or_pos r with rfl | hpos
  · rw [Nat.log2_zero]
    exact Nat.zero_le _
  · have hlt : q < 2 ^ (q.log2 + 1) := Nat.lt_log2_self
    have hpow : 2 ^ (q.log2 + 2) = 2 * 2 ^ (q.log2 + 1) := Nat.pow_succ'
    have hr' : r.log2 < q.log2 + 2 := by
      rw [Nat.log2_lt (Nat.ne_of_gt hpos), hpow]
      omega
    omega

/-- Rounding carries over one place at most, or it gives the least number that is not zero. -/
theorem within_roundWithAccuracy {sign : Sign} {m : Nat} {e : Int} {accuracy : Accuracy}
    (hm : totalExponent m e + 1 ≤ t) (ht : -1073 ≤ t) :
    Within t (roundWithAccuracy Format.binary64 sign m e accuracy) := by
  let k : Nat := (Format.binary64.targetExponent (totalExponent m e) - e).toNat
  let r : Nat := (ExtendedMantissa.ofMantissaAndAccuracy m accuracy >>> k).roundedMantissa
  have hr : r ≤ m / 2 ^ k + 1 := by
    have hle := roundedMantissa_le (ExtendedMantissa.ofMantissaAndAccuracy m accuracy >>> k)
    rwa [mantissa_shiftRight, mantissa_ofMantissaAndAccuracy] at hle
  have htarget : Format.binary64.targetExponent (totalExponent m e) =
      max (totalExponent m e - 53) (-1074) := rfl
  have hexponent : totalExponent m e = m.log2 + 1 + e := rfl
  have hrounded : totalExponent r (e + k) ≤ t := by
    unfold totalExponent
    by_cases hq : m / 2 ^ k = 0
    · -- All digits are behind the rounding place, so one is left at most.
      have hr' : r.log2 = 0 := by
        rw [hq] at hr
        rcases Nat.le_one_iff_eq_zero_or_eq_one.mp hr with hzero | hone
        · rw [hzero]
          rfl
        · rw [hone]
          rfl
      rw [hr']
      omega
    · have hshift := totalExponent_shift hq e
      have hcarry : r.log2 ≤ (m / 2 ^ k).log2 + 1 := log2_le_of_le_succ hr
      unfold totalExponent at hshift
      omega
  -- What carried over is shifted out again, which leaves the first digit in its place.
  have hfinal (k' : Nat) (hne : r / 2 ^ k' ≠ 0) : totalExponent (r / 2 ^ k') (e + k + k') ≤ t := by
    rwa [totalExponent_shift hne]
  let k' : Nat :=
    (Format.binary64.targetExponent (totalExponent r (e + k)) - (e + k)).toNat
  have hmantissa :
      (ExtendedMantissa.ofMantissaAndAccuracy r .exact >>> k').mantissa = r / 2 ^ k' := by
    rw [mantissa_shiftRight, mantissa_ofMantissaAndAccuracy]
  unfold roundWithAccuracy
  dsimp only
  split_ifs with hzero
  · exact .zero sign
  · change (ExtendedMantissa.ofMantissaAndAccuracy r .exact >>> k').mantissa ≠ 0 at hzero
    apply Within.finite
    show totalExponent (ExtendedMantissa.ofMantissaAndAccuracy r .exact >>> k').mantissa
      (e + k + k') ≤ t
    rw [hmantissa] at hzero ⊢
    exact hfinal k' hzero

theorem log2_shiftLeft {m : Nat} (hm : m ≠ 0) (k : Nat) : (m <<< k).log2 = m.log2 + k := by
  induction k with
  | zero => rfl
  | succ k ih =>
    have hne : m <<< k ≠ 0 := by
      rw [Nat.shiftLeft_eq]
      exact Nat.mul_ne_zero hm (Nat.ne_of_gt (Nat.two_pow_pos k))
    rw [Nat.shiftLeft_succ, Nat.log2_two_mul hne, ih]
    rfl

theorem within_round {sign : Sign} {m : Nat} {e : Int} (hm : m ≠ 0)
    (h : totalExponent m e + 1 ≤ t) (ht : -1073 ≤ t) :
    Within t (UnpackedFloat.round Format.binary64 sign m e) := by
  unfold UnpackedFloat.round decreaseExponent
  dsimp only
  apply within_roundWithAccuracy _ ht
  -- Digits that are appended to a number leave the first one in its place.
  unfold totalExponent at h ⊢
  rw [log2_shiftLeft hm]
  omega

/-! ## Products and quotients -/

theorem log2_mul_le (m n : Nat) : (m * n).log2 ≤ m.log2 + n.log2 + 1 := by
  rcases Nat.eq_zero_or_pos (m * n) with hzero | hpos
  · rw [hzero, Nat.log2_zero]
    exact Nat.zero_le _
  · have hlt : m * n < 2 ^ (m.log2 + 1) * 2 ^ (n.log2 + 1) :=
      Nat.mul_lt_mul'' Nat.lt_log2_self Nat.lt_log2_self
    rw [← Nat.pow_add] at hlt
    have hlog := (Nat.log2_lt (Nat.ne_of_gt hpos)).mpr hlt
    omega

theorem log2_div_add_le {m n : Nat} (h : m / n ≠ 0) : (m / n).log2 + n.log2 ≤ m.log2 := by
  have hn : n ≠ 0 := by
    rintro rfl
    exact h (Nat.div_zero m)
  have hm : m ≠ 0 := by
    rintro rfl
    exact h (Nat.zero_div n)
  rw [Nat.le_log2 hm, Nat.pow_add]
  calc 2 ^ (m / n).log2 * 2 ^ n.log2
      ≤ m / n * n := Nat.mul_le_mul (Nat.log2_self_le h) (Nat.log2_self_le hn)
    _ ≤ m := Nat.div_mul_le_self m n

theorem Within.mul (hu : Within t u) (hv : Within t' v) (hleast : -1073 ≤ t + t' + 1) :
    Within (t + t' + 1) (mul Format.binary64 u v) := by
  cases hu with
  | zero s => cases hv <;> exact .zero _
  | @finite s m e hm hu =>
    cases hv with
    | zero s' => exact .zero _
    | @finite s' m' e' hm' hv =>
      have hlog := log2_mul_le m m'
      apply within_roundWithAccuracy _ hleast
      unfold totalExponent at hu hv ⊢
      omega

/-- A division by two or more takes back what rounding may add. -/
theorem Within.div (hu : Within t u) (hv : AtLeastTwo v) (ht : -1022 ≤ t) :
    Within t (div Format.binary64 u v) := by
  cases hv with
  | @finite s' m' e' hm' hv =>
    cases hu with
    | zero s => exact .zero _
    | @finite s m e hm hu =>
      have htarget : Format.binary64.targetExponent (totalExponent m e - totalExponent m' e') =
          max (totalExponent m e - totalExponent m' e' - 53) (-1074) := rfl
      unfold UnpackedFloat.div divCore
      dsimp only
      rw [htarget]
      apply within_roundWithAccuracy _ (by omega)
      unfold totalExponent at *
      generalize hk : (e - e' - min (e - e')
        (max (m.log2 + 1 + e - (m'.log2 + 1 + e') - 53) (-1074))).toNat = k
      by_cases hq : (m <<< k) / m' = 0
      · -- Nothing is left before the place of rounding, which is as low as it gets.
        rw [hq, Nat.log2_zero]
        omega
      · -- The quotient loses as many digits as the divisor has, or one less.
        have hlog := log2_div_add_le hq
        rw [log2_shiftLeft (Nat.ne_of_gt hm)] at hlog
        omega

/-! ## Arithmetic on doubles -/

section Doubles

variable {x y : Float}

theorem isFinite_neg (h : x.isFinite = true) : (-x).isFinite = true :=
  (Fits.neg (fits_unpack h)).isFinite_unpack_pack

theorem exists_within (h : u.isFinite = true) : ∃ t, 0 ≤ t ∧ Within t u := by
  cases u with
  | infinity s => nomatch h
  | notANumber => nomatch h
  | zero s => exact ⟨0, Int.le_refl 0, .zero s⟩
  | finite s m e hm =>
    exact ⟨max 0 (totalExponent m e), Int.le_max_left _ _, .finite (Int.le_max_right _ _)⟩

/-- A product of numbers is a number, unless it is too large for a double. -/
theorem isFinite_mul (hx : x.isFinite = true) (hy : y.isFinite = true)
    (hinf : (x * y).isInf = false) : (x * y).isFinite = true := by
  obtain ⟨t, ht, hxt⟩ := exists_within (u := x.toModel.unpack) hx
  obtain ⟨t', ht', hyt⟩ := exists_within (u := y.toModel.unpack) hy
  have hproduct := hxt.mul hyt (by omega)
  exact isFinite_unpack_pack_of_not_isInf hproduct.isFinite hinf

theorem within_div (hx : Within t x.toModel.unpack) (hy : AtLeastTwo y.toModel.unpack)
    (ht : -1022 ≤ t) (ht' : t ≤ 972) : Within t (x / y).toModel.unpack := by
  have hquotient : Within t (div Format.binary64 x.toModel.unpack y.toModel.unpack) :=
    hx.div hy ht
  exact hquotient.unpack_pack ht ht'

theorem within_toFloat (n : UInt64) : Within 65 n.toFloat.toModel.unpack := by
  have hexact : Within 65 (ofUInt64 Format.binary64 n) := by
    unfold ofUInt64 UnpackedFloat.ofNat UnpackedFloat.ofInt UnpackedFloat.normalize
    by_cases hn : n.toNat = 0
    · rw [hn]
      exact .zero _
    · have hlog : n.toNat.log2 < 64 := (Nat.log2_lt hn).mpr n.toNat_lt
      rw [Int.compare_eq_gt.mpr (by omega)]
      apply within_round hn _ (by decide)
      unfold totalExponent
      omega
  exact hexact.unpack_pack (by decide) (by decide)

theorem within_ofScientific {n : Nat} (h : n < 2 ^ 64) :
    Within 67 (ofScientific Format.binary64 n 0) := by
  have hbits : Format.binary64.mantissaBits = 53 := rfl
  have hwidth : (2 : Int) ^ Format.binary64.exponentBits = 2048 := rfl
  unfold ofScientific
  by_cases hn : n = 0
  · rw [dif_pos hn]
    exact .zero _
  · have hlog : n.log2 < 64 := (Nat.log2_lt hn).mpr h
    have hsmall : ¬ (0 : Int) > 2 ^ Format.binary64.exponentBits := by
      rw [hwidth]
      decide
    have hlarge : ¬ (0 : Int) < -(2 ^ Format.binary64.exponentBits + (n.log2 : Int)) := by
      rw [hwidth]
      omega
    rw [dif_neg hn, if_neg hsmall, if_neg hlarge, if_pos (Int.le_refl 0)]
    have hone : totalExponent (10 ^ (0 : Int).toNat) 0 ≤ 1 := by
      decide
    refine Within.mul (t := 65) (.finite ?_) (.finite hone) (by decide)
    unfold totalExponent
    rw [log2_shiftLeft hn, hbits]
    omega

/-- Numbers of 64 bits are far from the largest doubles. -/
theorem within_ofNat {n : Nat} (h : n < 2 ^ 64) : Within 67 (Float.ofNat n).toModel.unpack := by
  have hone : Within 1 (Float.ofBits 0x3FF0000000000000).toModel.unpack := by
    decide
  have hproduct := (within_toFloat n.toUInt64).mul hone (by decide)
  have hexact := within_ofScientific h
  show Within 67 (Float.ofScientific n false 0).toModel.unpack
  unfold Float.ofScientific
  -- What has 53 bits at most is converted as it is, and multiplied by one.
  split
  · exact hproduct.unpack_pack (by decide) (by decide)
  · exact hexact.unpack_pack (by decide) (by decide)

end Doubles

end LSystem.Number
