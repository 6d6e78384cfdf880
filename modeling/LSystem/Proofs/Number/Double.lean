import LSystem.Number.Scalar
import LSystem.Proofs.Number.Finite
import LSystem.Proofs.Number.Order

/-!
# The values of doubles

A finite double stands for a rational number, and doubles are compared by these numbers
(`lt_iff_value`).
-/

namespace LSystem.Number

open Float.Model (Format UnpackedFloat totalExponent)
open Float.Model.UnpackedFloat

/-! ## Reading off the bits -/

/-- A double by its parts. -/
def Binary64.ofUnpacked : UnpackedFloat → Binary64
  | .infinity s => .infinite (s == .negative)
  | .notANumber => .nan
  | .zero s => .finite (s == .negative) 0 (-1074)
  | .finite s m e _ => .finite (s == .negative) m e

theorem toNat_implicit_append (f : BitVec 52) : (1#1 ++ f).toNat = f.toNat + twoTo 52 := by
  rw [BitVec.toNat_append, ← Nat.shiftLeft_add_eq_or_of_lt f.isLt, Nat.add_comm]
  rfl

section Bits

variable (w : UInt64)

theorem toNat_exponentBits :
    ((w >>> 52) &&& 0x7ff).toNat = (@unpackExponent Format.binary64 w.toBitVec).toNat := by
  have hmask : (0x7ff : UInt64).toNat = 2 ^ 11 - 1 := rfl
  have hshift : (w >>> 52).toNat = w.toNat >>> 52 := UInt64.toNat_shiftRight w 52
  rw [UInt64.toNat_and, hmask, Nat.and_two_pow_sub_one_eq_mod, hshift]
  unfold unpackExponent
  rw [BitVec.toNat_cast, BitVec.extractLsb_toNat]
  rfl

theorem toNat_fractionBits :
    (w &&& 0xfffffffffffff).toNat = (@unpackMantissa Format.binary64 w.toBitVec).toNat := by
  have hmask : (0xfffffffffffff : UInt64).toNat = 2 ^ 52 - 1 := rfl
  rw [UInt64.toNat_and, hmask, Nat.and_two_pow_sub_one_eq_mod]
  unfold unpackMantissa
  rw [BitVec.toNat_cast, BitVec.extractLsb_toNat]
  rfl

theorem signBit_eq :
    (w >>> 63 == 1) =
      (Sign.ofBitVec (@unpackSign Format.binary64 w.toBitVec) == .negative) := by
  have hshift : (w >>> 63).toNat = w.toNat >>> 63 := UInt64.toNat_shiftRight w 63
  have hlt : w.toNat >>> 63 < 2 := by
    rw [Nat.shiftRight_eq_div_pow]
    have hw := w.toNat_lt
    omega
  have hsign : (@unpackSign Format.binary64 w.toBitVec).toNat = w.toNat >>> 63 := by
    unfold unpackSign
    rw [BitVec.toNat_cast, BitVec.extractLsb_toNat]
    exact Nat.mod_eq_of_lt hlt
  have hbit : (w >>> 63 == 1) = (w.toNat >>> 63 == 1) := by
    rw [← hshift, Bool.eq_iff_iff, beq_iff_eq, beq_iff_eq, ← UInt64.toNat_inj]
    rfl
  rw [hbit, ← hsign]
  generalize @unpackSign Format.binary64 w.toBitVec = b
  revert b
  decide

end Bits

theorem ofFloat_eq (x : Float) : Binary64.ofFloat x = .ofUnpacked x.toModel.unpack := by
  have hbits : x.toBits = x.toModel.toBits := rfl
  unfold Binary64.ofFloat Float.Model.unpack UnpackedFloat.unpack
  rw [hbits]
  generalize x.toModel.toBits = w
  have hones : @unpackExponent Format.binary64 w.toBitVec = -1#11 ↔
      (@unpackExponent Format.binary64 w.toBitVec).toNat = 0x7ff := BitVec.toNat_inj.symm
  have hzeros : @unpackExponent Format.binary64 w.toBitVec = 0#11 ↔
      (@unpackExponent Format.binary64 w.toBitVec).toNat = 0 := BitVec.toNat_inj.symm
  have hfraction : @unpackMantissa Format.binary64 w.toBitVec = 0#52 ↔
      (@unpackMantissa Format.binary64 w.toBitVec).toNat = 0 := BitVec.toNat_inj.symm
  -- Both readers now branch on the same numbers.
  simp only [toNat_exponentBits, toNat_fractionBits, signBit_eq, hones, hzeros, hfraction]
  split_ifs with hspecial hinfinite hsmall hzero
  · rfl
  · rfl
  · rw [hzero]
    rfl
  · rw [hsmall]
    rfl
  · show Binary64.finite _ _ _ =
      Binary64.finite _ (1#1 ++ @unpackMantissa Format.binary64 w.toBitVec).toNat _
    rw [toNat_implicit_append]
    rfl

/-! ## Values -/

/-- The number that a finite double stands for. -/
def Binary64.value? : Binary64 → Option ℚ
  | .finite negative m e => some ((if negative then -1 else 1) * (m * 2 ^ e))
  | .infinite _ => none
  | .nan => none

def value? (x : Float) : Option ℚ := (Binary64.ofFloat x).value?

/-- A mantissa of 53 digits, or of fewer at the least exponent. -/
structure Canonical (m : ℕ) (e : ℤ) : Prop where
  lt : m < 2 ^ 53
  least : -1074 ≤ e
  full : 2 ^ 52 ≤ m ∨ e = -1074

theorem canonical_ofFloat {x : Float} {negative : Bool} {m : ℕ} {e : ℤ}
    (h : Binary64.ofFloat x = .finite negative m e) : Canonical m e := by
  have hfraction : (x.toBits &&& 0xfffffffffffff).toNat < 2 ^ 52 := by
    rw [toNat_fractionBits]
    exact (@unpackMantissa Format.binary64 x.toBits.toBitVec).isLt
  have hwhole : twoTo 52 = 2 ^ 52 := rfl
  unfold Binary64.ofFloat at h
  dsimp only at h
  split_ifs at h with hspecial hinfinite hsmall
  · obtain ⟨-, rfl, rfl⟩ := Binary64.finite.inj h
    exact ⟨by omega, le_refl _, Or.inr rfl⟩
  · obtain ⟨-, rfl, rfl⟩ := Binary64.finite.inj h
    exact ⟨by omega, by omega, Or.inl (by omega)⟩

theorem magnitude_lt {m n : ℕ} {e f : ℤ} (hm : Canonical m e) (hn : Canonical n f) (hef : e < f) :
    (m : ℚ) * 2 ^ e < n * 2 ^ f := by
  have hfull : 2 ^ 52 ≤ n := hn.full.resolve_right (by have := hm.least; omega)
  have hfull' : (2 : ℚ) ^ 52 ≤ n := by exact_mod_cast hfull
  have hlt : (m : ℚ) < 2 ^ 53 := by exact_mod_cast hm.lt
  have hpow : (2 : ℚ) ^ (e + 1) ≤ 2 ^ f := zpow_le_zpow_right₀ (by norm_num) (by omega)
  calc (m : ℚ) * 2 ^ e < 2 ^ 53 * 2 ^ e := mul_lt_mul_of_pos_right hlt (by positivity)
    _ = 2 ^ 52 * 2 ^ (e + 1) := by
      rw [zpow_add_one₀ (by norm_num)]
      ring
    _ ≤ n * 2 ^ f := mul_le_mul hfull' hpow (by positivity) (by positivity)

theorem magnitude_lt_iff {m n : ℕ} {e f : ℤ} (hm : Canonical m e) (hn : Canonical n f) :
    (m : ℚ) * 2 ^ e < n * 2 ^ f ↔ e < f ∨ e = f ∧ m < n := by
  rcases lt_trichotomy e f with hef | rfl | hef
  · exact iff_of_true (magnitude_lt hm hn hef) (Or.inl hef)
  · rw [mul_lt_mul_iff_of_pos_right (by positivity), Nat.cast_lt]
    simp
  · have hback := magnitude_lt hn hm hef
    exact iff_of_false hback.le.not_gt (by omega)

/-- A double, by its parts, stands for a number. -/
inductive Stands : UnpackedFloat → ℚ → Prop where
  | zero (s : Sign) : Stands (.zero s) 0
  | positive {m : ℕ} {e : ℤ} (hm : 0 < m) (h : Canonical m e) :
      Stands (.finite .positive m e hm) (m * 2 ^ e)
  | negative {m : ℕ} {e : ℤ} (hm : 0 < m) (h : Canonical m e) :
      Stands (.finite .negative m e hm) (-(m * 2 ^ e))

theorem stands_of_value? {x : Float} {q : ℚ} (h : value? x = some q) :
    Stands x.toModel.unpack q := by
  have hcanonical (negative : Bool) (m : ℕ) (e : ℤ)
      (hx : Binary64.ofFloat x = .finite negative m e) : Canonical m e := canonical_ofFloat hx
  unfold value? at h
  rw [ofFloat_eq] at h hcanonical
  generalize x.toModel.unpack = u at *
  cases u with
  | infinity s => nomatch h
  | notANumber => nomatch h
  | zero s =>
    have hq : q = 0 := by simpa using (Option.some.inj h).symm
    exact hq ▸ .zero s
  | finite s m e hm =>
    have hq := (Option.some.inj h).symm
    cases s with
    | positive =>
      have hq : q = m * 2 ^ e := by simpa using hq
      exact hq ▸ .positive hm (hcanonical false m e rfl)
    | negative =>
      have hq : q = -(m * 2 ^ e) := by simpa using hq
      exact hq ▸ .negative hm (hcanonical true m e rfl)

theorem Stands.isNaN {u : UnpackedFloat} {q : ℚ} (h : Stands u q) : u.isNaN = false := by
  cases h <;> rfl

/-! ## Comparing values -/

theorem Stands.rank_lt_iff {u v : UnpackedFloat} {p q : ℚ} (hu : Stands u p) (hv : Stands v q) :
    rank u < rank v ↔ p < q := by
  have hpos {m : ℕ} (e : ℤ) (hm : 0 < m) : (0 : ℚ) < m * 2 ^ e := by positivity
  cases hu with
  | zero s =>
    cases hv with
    | zero t => simp [rank]
    | @positive n f hn h => simp [rank, Prod.Lex.toLex_lt_toLex, hpos f hn]
    | @negative n f hn h => simp [rank, Prod.Lex.toLex_lt_toLex, (hpos f hn).le]
  | @positive m e hm h =>
    cases hv with
    | zero t => simp [rank, Prod.Lex.toLex_lt_toLex, (hpos e hm).le]
    | @positive n f hn h' =>
      rw [magnitude_lt_iff h h']
      simp [rank, Prod.Lex.toLex_lt_toLex]
    | @negative n f hn h' =>
      have hsign : -((n : ℚ) * 2 ^ f) < m * 2 ^ e := (neg_lt_zero.mpr (hpos f hn)).trans (hpos e hm)
      simp [rank, Prod.Lex.toLex_lt_toLex, hsign.le]
  | @negative m e hm h =>
    cases hv with
    | zero t => simp [rank, Prod.Lex.toLex_lt_toLex, hpos e hm]
    | @positive n f hn h' =>
      have hsign : -((m : ℚ) * 2 ^ e) < n * 2 ^ f := (neg_lt_zero.mpr (hpos e hm)).trans (hpos f hn)
      simp [rank, Prod.Lex.toLex_lt_toLex, hsign]
    | @negative n f hn h' =>
      rw [neg_lt_neg_iff, magnitude_lt_iff h' h]
      simp [rank, Prod.Lex.toLex_lt_toLex, eq_comm]

section Comparing

variable {x y : Float} {p q : ℚ}

theorem isNaN_of_value? (h : value? x = some p) : x.isNaN = false :=
  (stands_of_value? h).isNaN

theorem lt_iff_value (hx : value? x = some p) (hy : value? y = some q) : x < y ↔ p < q := by
  rw [double_lt_iff (isNaN_of_value? hx) (isNaN_of_value? hy),
    (stands_of_value? hx).rank_lt_iff (stands_of_value? hy)]

theorem le_iff_value (hx : value? x = some p) (hy : value? y = some q) : x ≤ y ↔ p ≤ q := by
  rw [double_le_iff (isNaN_of_value? hx) (isNaN_of_value? hy), ← not_lt,
    (stands_of_value? hy).rank_lt_iff (stands_of_value? hx), not_lt]

end Comparing

/-! ## Infinities, and what is no number -/

section Others

variable {x y : Float} {q : ℚ}

theorem unpack_of_infinite {negative : Bool} (h : Binary64.ofFloat x = .infinite negative) :
    x.toModel.unpack = .infinity (if negative then .negative else .positive) := by
  rw [ofFloat_eq] at h
  generalize x.toModel.unpack = u at *
  cases u with
  | infinity s =>
    cases s <;> cases h <;> rfl
  | _ => nomatch h

theorem isNaN_of_infinite {negative : Bool} (h : Binary64.ofFloat x = .infinite negative) :
    x.isNaN = false := by
  show x.toModel.unpack.isNaN = false
  rw [unpack_of_infinite h]
  rfl

theorem isNaN_iff : x.isNaN = true ↔ Binary64.ofFloat x = .nan := by
  rw [ofFloat_eq]
  show x.toModel.unpack.isNaN = true ↔ _
  cases x.toModel.unpack <;> simp [Binary64.ofUnpacked, UnpackedFloat.isNaN]

theorem not_lt_of_isNaN (h : x.isNaN = true) (y : Float) : ¬ x < y := by
  have hcompare : x.toModel.unpack.compare y.toModel.unpack = none := by
    have hunpack : x.toModel.unpack.isNaN = true := h
    generalize x.toModel.unpack = u at *
    cases u with
    | notANumber => rfl
    | _ => nomatch hunpack
  show ¬ decide ((x.toModel.unpack.compare y.toModel.unpack == some .lt) = true) = true
  rw [hcompare]
  decide

theorem Stands.rank_between {u : UnpackedFloat} (h : Stands u q) :
    rank (.infinity .negative) < rank u ∧ rank u < rank (.infinity .positive) := by
  cases h <;> simp [rank, Prod.Lex.toLex_lt_toLex]

theorem lt_of_negative_infinite (hx : Binary64.ofFloat x = .infinite true)
    (hy : value? y = some q) : x < y ∧ ¬ y ≤ x := by
  have hunpack := unpack_of_infinite hx
  have hnumber := isNaN_of_infinite hx
  have hrank := (stands_of_value? hy).rank_between.1
  rw [double_lt_iff hnumber (isNaN_of_value? hy), double_le_iff (isNaN_of_value? hy) hnumber, hunpack]
  exact ⟨hrank, hrank.not_ge⟩

theorem not_lt_of_positive_infinite (hx : Binary64.ofFloat x = .infinite false)
    (hy : value? y = some q) : ¬ x < y := by
  have hunpack := unpack_of_infinite hx
  have hnumber := isNaN_of_infinite hx
  rw [double_lt_iff hnumber (isNaN_of_value? hy), hunpack]
  exact (stands_of_value? hy).rank_between.2.asymm

end Others

end LSystem.Number
