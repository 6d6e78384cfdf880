import LSystem.Proofs.Number.Double

/-!
# Whole numbers and doubles

Whole numbers of 53 digits at most are doubles (`value?_ofNat`), and the whole part of a double is that
of the number that it stands for (`wholePart_of_value?`).
-/

namespace LSystem.Number

open Float.Model (Format UnpackedFloat totalExponent)
open Float.Model.UnpackedFloat

/-! ## Rounding and packing what a double has room for -/

theorem exact_shiftRight (m k : ℕ) :
    ExtendedMantissa.ofMantissaAndAccuracy (m * 2 ^ k) .exact >>> k = ⟨m, false, false⟩ := by
  induction k generalizing m with
  | zero =>
    rw [pow_zero, mul_one]
    rfl
  | succ k ih =>
    have htail := ih (m * 2)
    rw [mul_assoc, ← pow_succ'] at htail
    show (ExtendedMantissa.ofMantissaAndAccuracy (m * 2 ^ (k + 1)) .exact >>> k).shiftRightOne = _
    rw [htail]
    simp [ExtendedMantissa.shiftRightOne]

section Room

variable {s : Sign} {m : ℕ} {e : ℤ}

/-- A number that a double has room for is not changed by rounding. -/
theorem roundWithAccuracy_exact (hlog : m.log2 = 52) (he : -1074 ≤ e) (hm : 0 < m) (k : ℕ) :
    roundWithAccuracy Format.binary64 s (m * 2 ^ k) (e - k) .exact = .finite s m e hm := by
  have hlog' : (m * 2 ^ k).log2 = 52 + k := by
    rw [← Nat.shiftLeft_eq, log2_shiftLeft (Nat.ne_of_gt hm), hlog]
  have htarget {n : ℕ} {f : ℤ} (h : totalExponent n f = e + 53) :
      Format.binary64.targetExponent (totalExponent n f) = e := by
    show max (totalExponent n f - 53) (-1074) = e
    omega
  have hfirst : shiftToTargetExponent Format.binary64 (m * 2 ^ k) (e - k) .exact =
      (⟨m, false, false⟩, e) := by
    have hshift : (e - (e - (k : ℤ))).toNat = k := by omega
    unfold shiftToTargetExponent
    rw [htarget (by unfold totalExponent; omega), shiftToExponent, hshift, exact_shiftRight,
      sub_add_cancel]
  have hsecond : shiftToTargetExponent Format.binary64 m e .exact = (⟨m, false, false⟩, e) := by
    have hshift : (e - e).toNat = 0 := by omega
    unfold shiftToTargetExponent
    rw [htarget (by unfold totalExponent; omega), shiftToExponent, hshift]
    exact Prod.ext rfl (add_zero e)
  have hrounded : (ExtendedMantissa.mk m false false).roundedMantissa = m := rfl
  unfold roundWithAccuracy
  simp only [hfirst, hrounded, hsecond]
  rw [dif_neg (Nat.ne_of_gt hm)]

theorem ofBitVec_unpackSign_packComponents (s : Sign) (e : BitVec 11) (f : BitVec 52) :
    Sign.ofBitVec (unpackSign (packComponents Format.binary64 s e f)) = s := by
  simp only [unpackSign, packComponents, BitVec.extractLsb]
  rw [BitVec.extractLsb'_append_eq_of_le (by omega), BitVec.extractLsb'_append_eq_of_le (by omega)]
  cases s <;> rfl

theorem unpack_pack_normal (hlog : m.log2 = 52) (he : -1074 ≤ e) (he' : e ≤ 971) (hm : 0 < m) :
    (Float.Model.pack (.finite s m e hm)).unpack = .finite s m e hm := by
  have hbias : Format.binary64.exponentBias = 1023 := rfl
  have hlow : 2 ^ 52 ≤ m := by
    rw [← hlog]
    exact Nat.log2_self_le (Nat.ne_of_gt hm)
  have hhigh : m < 2 ^ 53 := by
    have hlt : m < 2 ^ (m.log2 + 1) := Nat.lt_log2_self
    rwa [hlog] at hlt
  have hroom : ¬ 2 ^ 11 ≤ (e + Format.binary64.exponentBias + (52 : Nat)).toNat + 1 := by
    rw [hbias]
    omega
  have hfield : ((BitVec.ofNat 11 (e + Format.binary64.exponentBias + (52 : Nat)).toNat).toNat : ℤ) =
      e + 1075 := by
    rw [BitVec.toNat_ofNat, hbias]
    omega
  have hmantissa : (1#1 ++ BitVec.ofNat 52 m).toNat = m := by
    rw [toNat_implicit_append, BitVec.toNat_ofNat]
    show m % 2 ^ 52 + 2 ^ 52 = m
    omega
  rw [unpack_pack]
  unfold pack
  dsimp only
  rw [if_neg hroom, if_pos (by rw [hlog]; rfl)]
  unfold UnpackedFloat.unpack
  simp only [unpackMantissa_packComponents, unpackExponent_packComponents,
    ofBitVec_unpackSign_packComponents]
  generalize BitVec.ofNat 11 (e + Format.binary64.exponentBias + (52 : Nat)).toNat = field at *
  have hones : field ≠ -1#11 := by
    rintro rfl
    have h2047 : (-1#11).toNat = 2047 := rfl
    omega
  have hzeros : field ≠ 0#11 := by
    rintro rfl
    have hzero : (0#11).toNat = 0 := rfl
    omega
  rw [if_neg hones, if_neg hzeros]
  congr 1
  rw [hfield, hbias]
  omega

end Room

/-! ## Small whole numbers -/

/-- A whole number of 53 digits at most, with its first digit in the first place. -/
theorem ofNat_eq_finite {n : ℕ} (hn : 0 < n) (hlt : n < 2 ^ 53) :
    ∃ (m : ℕ) (e : ℤ) (hm : 0 < m), UnpackedFloat.ofNat Format.binary64 n = .finite .positive m e hm ∧
      m.log2 = 52 ∧ -52 ≤ e ∧ e ≤ 0 ∧ (m : ℚ) * 2 ^ e = n := by
  have hne : n ≠ 0 := Nat.ne_of_gt hn
  have hlog : n.log2 < 53 := (Nat.log2_lt hne).mpr hlt
  have hlog' : (n <<< (52 - n.log2)).log2 = 52 := by
    rw [log2_shiftLeft hne]
    omega
  have hpos : 0 < n <<< (52 - n.log2) := by
    rw [Nat.shiftLeft_eq]
    positivity
  have htarget : Format.binary64.targetExponent (totalExponent n 0) = n.log2 - 52 := by
    show max ((n.log2 : ℤ) + 1 + 0 - 53) (-1074) = _
    omega
  have hshift : (0 - ((n.log2 : ℤ) - 52)).toNat = 52 - n.log2 := by omega
  have hexact := roundWithAccuracy_exact (s := .positive) (e := (n.log2 : ℤ) - 52) hlog' (by omega)
    hpos 0
  refine ⟨n <<< (52 - n.log2), n.log2 - 52, hpos, ?_, hlog', by omega, by omega, ?_⟩
  · rw [← hexact]
    unfold UnpackedFloat.ofNat UnpackedFloat.ofInt UnpackedFloat.normalize
    rw [Int.compare_eq_gt.mpr (by omega)]
    dsimp only
    unfold UnpackedFloat.round decreaseExponent
    dsimp only
    rw [Int.toNat_natCast, htarget, hshift, pow_zero, mul_one]
    congr 1
    omega
  · have hsplit : (n.log2 : ℤ) - 52 = -((52 - n.log2 : ℕ) : ℤ) := by omega
    rw [Nat.shiftLeft_eq, hsplit, zpow_neg, zpow_natCast]
    push_cast
    exact mul_inv_cancel_right₀ (by positivity) _

/-- A double conversion multiplies by one in the end, which changes nothing. -/
theorem unpack_ofNat {n : ℕ} (hn : 0 < n) (hlt : n < 2 ^ 53) :
    ∃ (m : ℕ) (e : ℤ) (hm : 0 < m), (Float.ofNat n).toModel.unpack = .finite .positive m e hm ∧
      m.log2 = 52 ∧ -52 ≤ e ∧ e ≤ 0 ∧ (m : ℚ) * 2 ^ e = n := by
  obtain ⟨m, e, hm, hexact, hlog, hleast, hgreatest, hvalue⟩ := ofNat_eq_finite hn hlt
  refine ⟨m, e, hm, ?_, hlog, hleast, hgreatest, hvalue⟩
  have hword : n.toUInt64.toNat = n := by
    rw [UInt64.toNat_ofNat']
    omega
  have hconverted : n.toUInt64.toFloat.toModel.unpack = .finite .positive m e hm := by
    show (Float.Model.pack (UnpackedFloat.ofNat Format.binary64 n.toUInt64.toNat)).unpack = _
    rw [hword, hexact, unpack_pack_normal hlog (by omega) (by omega)]
  -- One has its digit in the first place too, so a product with it only shifts.
  have hone : (Float.ofBits 0x3FF0000000000000).toModel.unpack =
      .finite .positive (2 ^ 52) (-52) (by decide) := by rfl
  have hmul := roundWithAccuracy_exact (s := .positive) hlog (by omega : -1074 ≤ e) hm 52
  have hroom : n < 2 ^ 53 ∧ 0 ≤ 22 := ⟨hlt, by decide⟩
  show (Float.ofScientific n false 0).toModel.unpack = _
  unfold Float.ofScientific
  rw [dif_pos hroom]
  show (Float.Model.pack (mul Format.binary64 n.toUInt64.toFloat.toModel.unpack
    (Float.ofBits 0x3FF0000000000000).toModel.unpack)).unpack = _
  rw [hconverted, hone]
  exact (congrArg (fun u ↦ (Float.Model.pack u).unpack) hmul).trans
    (unpack_pack_normal hlog (by omega) (by omega) hm)

theorem value?_ofNat {n : ℕ} (hlt : n < 2 ^ 53) : value? (Float.ofNat n) = some (n : ℚ) := by
  unfold value?
  rw [ofFloat_eq]
  rcases Nat.eq_zero_or_pos n with rfl | hn
  · have hzero : (Float.ofNat 0).toModel.unpack = .zero .positive := by rfl
    simp [hzero, Binary64.ofUnpacked, Binary64.value?]
  · obtain ⟨m, e, hm, hunpack, -, -, -, hvalue⟩ := unpack_ofNat hn hlt
    simp [hunpack, Binary64.ofUnpacked, Binary64.value?, hvalue]

theorem value?_zero : value? 0.0 = some 0 := by
  have hzero : Binary64.ofFloat 0.0 = .finite false 0 (-1074) := by decide +kernel
  simp [value?, hzero, Binary64.value?]

theorem value?_neg_ofNat {n : ℕ} (hlt : n < 2 ^ 53) :
    value? (-Float.ofNat n) = some (-(n : ℚ)) := by
  unfold value?
  rw [ofFloat_eq]
  rcases Nat.eq_zero_or_pos n with rfl | hn
  · have hzero : (-Float.ofNat 0).toModel.unpack = .zero .negative := by rfl
    simp [hzero, Binary64.ofUnpacked, Binary64.value?]
  · obtain ⟨m, e, hm, hunpack, hlog, hleast, hgreatest, hvalue⟩ := unpack_ofNat hn hlt
    have hneg : (-Float.ofNat n).toModel.unpack = .finite .negative m e hm := by
      show (Float.Model.pack (Float.ofNat n).toModel.unpack.neg).unpack = _
      rw [hunpack]
      exact unpack_pack_normal hlog (by omega) (by omega) hm
    simp [hneg, Binary64.ofUnpacked, Binary64.value?, hvalue]

/-! ## Whole parts -/

theorem shiftRight_eq_floor (m n : ℕ) : ((m >>> n : ℕ) : ℤ) = ⌊(m : ℚ) * 2 ^ (-(n : ℤ))⌋ := by
  have hquotient : (m : ℚ) * 2 ^ (-(n : ℤ)) = (m : ℚ) / (2 ^ n : ℕ) := by
    rw [zpow_neg, zpow_natCast, Nat.cast_pow, Nat.cast_ofNat, div_eq_mul_inv]
  rw [hquotient, Rat.floor_natCast_div_natCast, Nat.shiftRight_eq_div_pow]
  exact Int.natCast_div m (2 ^ n)

theorem shiftLeft_eq_magnitude (m n : ℕ) : ((m <<< n : ℕ) : ℚ) = m * 2 ^ (n : ℤ) := by
  rw [Nat.shiftLeft_eq, Nat.cast_mul, Nat.cast_pow, Nat.cast_ofNat, zpow_natCast]

theorem size_eq_floor (m : ℕ) (e : ℤ) :
    ((if 0 ≤ e then m <<< e.toNat else m >>> (-e).toNat : ℕ) : ℤ) = ⌊(m : ℚ) * 2 ^ e⌋ := by
  split_ifs with he
  · obtain ⟨n, rfl⟩ := Int.eq_ofNat_of_zero_le he
    rw [Int.toNat_natCast, ← shiftLeft_eq_magnitude, Int.floor_natCast]
  · obtain ⟨n, hn⟩ := Int.eq_ofNat_of_zero_le (by omega : 0 ≤ -e)
    obtain rfl : e = -(n : ℤ) := by omega
    rw [neg_neg, Int.toNat_natCast, shiftRight_eq_floor]

theorem exists_of_value? {x : Float} {q : ℚ} (h : value? x = some q) :
    ∃ (negative : Bool) (m : ℕ) (e : ℤ), Binary64.ofFloat x = .finite negative m e ∧
      q = (if negative then -1 else 1) * (m * 2 ^ e) := by
  unfold value? at h
  cases hx : Binary64.ofFloat x with
  | finite negative m e =>
    rw [hx] at h
    exact ⟨negative, m, e, rfl, (Option.some.inj h).symm⟩
  | infinite negative =>
    rw [hx] at h
    nomatch h
  | nan =>
    rw [hx] at h
    nomatch h

theorem wholePart_of_value? {x : Float} {q : ℚ} (h : value? x = some q) (low high : ℤ) :
    (Binary64.ofFloat x).wholePart low high = max low (min high (if 0 ≤ q then ⌊q⌋ else ⌈q⌉)) := by
  obtain ⟨negative, m, e, hx, rfl⟩ := exists_of_value? h
  have hsize : (if 0 ≤ e then ((m <<< e.toNat : ℕ) : ℤ) else ((m >>> (-e).toNat : ℕ) : ℤ)) =
      ⌊(m : ℚ) * 2 ^ e⌋ := by
    rw [← size_eq_floor]
    split <;> rfl
  rw [hx]
  show max low (min high (if negative = true then -(if 0 ≤ e then ((m <<< e.toNat : ℕ) : ℤ) else _)
    else if 0 ≤ e then ((m <<< e.toNat : ℕ) : ℤ) else _)) = _
  rw [hsize]
  have hnonneg : (0 : ℚ) ≤ m * 2 ^ e := by positivity
  cases negative with
  | false => simp [hnonneg]
  | true =>
    rcases hnonneg.eq_or_lt with hzero | hpos
    · simp [← hzero]
    · simp [hpos.not_ge, Int.ceil_neg]

theorem isInt_of_nonneg {q : ℚ} {negative : Bool} {m : ℕ} {e : ℤ} (he : 0 ≤ e)
    (hq : q = (if negative then -1 else 1) * (m * 2 ^ e)) : ∃ n : ℤ, q = n := by
  obtain ⟨n, rfl⟩ := Int.eq_ofNat_of_zero_le he
  refine ⟨(if negative then -1 else 1) * ((m <<< n : ℕ) : ℤ), ?_⟩
  rw [hq, ← shiftLeft_eq_magnitude]
  push_cast
  rfl

/-! ## Floors -/

/-- What it takes to round doubles down to whole numbers. -/
structure IsFloor (floor : Float → Float) : Prop where
  value : ∀ {x q}, value? x = some q → value? (floor x) = some (⌊q⌋ : ℚ)
  infinite : ∀ {x negative}, Binary64.ofFloat x = .infinite negative → floor x = x
  isNaN : ∀ {x}, x.isNaN = true → (floor x).isNaN = true

/-- Rounding down, by the digits before the point. -/
def roundDown (x : Float) : Float :=
  match Binary64.ofFloat x with
  | .finite negative m e =>
    if 0 ≤ e then x
    else if negative then -Float.ofNat (-(m : ℤ) / twoTo (-e).toNat).natAbs
    else Float.ofNat (m >>> (-e).toNat)
  | _ => x

theorem value?_roundDown {x : Float} {q : ℚ} (h : value? x = some q) :
    value? (roundDown x) = some (⌊q⌋ : ℚ) := by
  obtain ⟨negative, m, e, hx, hq⟩ := exists_of_value? h
  have hm : m < 2 ^ 53 := (canonical_ofFloat hx).lt
  unfold roundDown
  rw [hx]
  dsimp only
  split_ifs with he hnegative
  · obtain ⟨n, rfl⟩ := isInt_of_nonneg he hq
    rw [h, Int.floor_intCast]
  · obtain ⟨n, hn⟩ := Int.eq_ofNat_of_zero_le (by omega : 0 ≤ -e)
    obtain rfl : e = -(n : ℤ) := by omega
    have hpower : ((twoTo n : ℕ) : ℚ) = 2 ^ n := Nat.cast_pow 2 n
    have hquotient : q = ((-(m : ℤ) : ℤ) : ℚ) / (twoTo n : ℕ) := by
      rw [hq, if_pos hnegative, zpow_neg, zpow_natCast, hpower]
      push_cast
      ring
    have hnonpos : -(m : ℤ) / twoTo n ≤ 0 :=
      Int.ediv_nonpos_of_nonpos_of_neg (by omega) (by exact_mod_cast Nat.two_pow_pos n)
    have hle : (-(m : ℤ) / twoTo n).natAbs ≤ m := by
      have hdiv := Int.natAbs_ediv_le_natAbs (-(m : ℤ)) (twoTo n)
      rwa [Int.natAbs_neg, Int.natAbs_natCast] at hdiv
    rw [neg_neg, Int.toNat_natCast, value?_neg_ofNat (by omega), hquotient,
      Rat.floor_intCast_div_natCast]
    congr 1
    exact_mod_cast (by omega : -((-(m : ℤ) / twoTo n).natAbs : ℤ) = _)
  · obtain ⟨n, hn⟩ := Int.eq_ofNat_of_zero_le (by omega : 0 ≤ -e)
    obtain rfl : e = -(n : ℤ) := by omega
    have hle : m >>> n ≤ m := Nat.shiftRight_le m n
    rw [neg_neg, Int.toNat_natCast, value?_ofNat (by omega), hq, if_neg hnegative, one_mul,
      ← shiftRight_eq_floor, Int.cast_natCast]

theorem isFloor_roundDown : IsFloor roundDown where
  value := value?_roundDown
  infinite := by
    intro x negative h
    unfold roundDown
    rw [h]
  isNaN := by
    intro x h
    unfold roundDown
    rw [isNaN_iff.mp h]
    exact h

end LSystem.Number

namespace LSystem

/-- Doubles as numbers of the plane, whatever rounds them to whole numbers and whichever way a heading
points. -/
@[reducible] def Scalar.doubles (floor ceil round : Float → Float)
    (direction : Float → Float × Float) : Scalar Float :=
  { (inferInstance : Scalar Float) with floor, ceil, round, direction }

example : (inferInstance : Scalar Float) =
    .doubles Float.floor Float.ceil Float.round
      fun degrees ↦ ((degrees * radiansPerDegree).cos, (degrees * radiansPerDegree).sin) := rfl

end LSystem
