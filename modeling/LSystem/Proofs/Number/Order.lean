import LSystem.Number.Scalar
import Mathlib.Data.Prod.Lex
import Mathlib.Order.Compare
import Mathlib.Order.RelIso.Set

/-!
# Comparing the numbers of the plane

Comparison of numbers need not be total: a value that is no number is level with everything.  Laws
on the smaller and the larger of numbers are therefore stated on the values that satisfy a condition
`P` under which `<` is a strict weak order.  Doubles that are numbers are such values
(`ordered_double`).
-/

namespace LSystem

/-! ## Strict weak orders on some of the values -/

section Weakly

variable {α : Type} {r : α → α → Prop} {P : α → Prop}

/-- On the values that satisfy `P`, `r` is a strict weak order. -/
def WeaklyOrders (r : α → α → Prop) (P : α → Prop) : Prop :=
  IsStrictWeakOrder (Subtype P) (Subrel r P)

namespace WeaklyOrders

theorem trans (h : WeaklyOrders r P) {a b c : α} (ha : P a) (hb : P b) (hc : P c)
    (hab : r a b) (hbc : r b c) : r a c :=
  h.toIsStrictOrder.toIsTrans.trans ⟨a, ha⟩ ⟨b, hb⟩ ⟨c, hc⟩ hab hbc

theorem irrefl (h : WeaklyOrders r P) {a : α} (ha : P a) : ¬ r a a :=
  h.toIsStrictOrder.toIrrefl.irrefl ⟨a, ha⟩

theorem asymm (h : WeaklyOrders r P) {a b : α} (ha : P a) (hb : P b) (hab : r a b) : ¬ r b a :=
  fun hba => h.irrefl ha (h.trans ha hb ha hab hba)

-- That one value does not come before another passes on, as in a total order.
theorem not_trans (h : WeaklyOrders r P) {a b c : α} (ha : P a) (hb : P b) (hc : P c)
    (hab : ¬ r a b) (hbc : ¬ r b c) : ¬ r a c := by
  intro hac
  by_cases hba : r b a
  · exact hbc (h.trans hb ha hc hba hac)
  · by_cases hcb : r c b
    · exact hab (h.trans ha hc hb hac hcb)
    · exact (h.incomp_trans ⟨a, ha⟩ ⟨b, hb⟩ ⟨c, hc⟩ ⟨hab, hba⟩ ⟨hbc, hcb⟩).1 hac

theorem swap (h : WeaklyOrders r P) : WeaklyOrders (Function.swap r) P := by
  have hr : IsStrictWeakOrder (Subtype P) (Subrel r P) := h
  exact inferInstanceAs (IsStrictWeakOrder (Subtype P) (Function.swap (Subrel r P)))

end WeaklyOrders

end Weakly

/-! ## Keeping one of two values -/

section Keep

variable {α : Type} {r : α → α → Prop} [DecidableRel r] {P : α → Prop}

/-- The first value if it comes before the second one, and the second one otherwise. -/
def keep (r : α → α → Prop) [DecidableRel r] (a b : α) : α := if r a b then a else b

theorem keep_eq_or (a b : α) : keep r a b = a ∨ keep r a b = b := by
  unfold keep
  split
  · exact Or.inl rfl
  · exact Or.inr rfl

theorem keep_mem {a b : α} (ha : P a) (hb : P b) : P (keep r a b) := by
  rcases keep_eq_or (r := r) a b with h | h
  · rw [h]; exact ha
  · rw [h]; exact hb

theorem keep_self (a : α) : keep r a a = a := ite_self a

-- This needs no order.
theorem keep_keep_self (a b : α) : keep r (keep r a b) b = keep r a b := by
  unfold keep
  by_cases hab : r a b <;> simp [hab]

-- Of values that are level the last one is kept, however they are grouped.
theorem keep_assoc (h : WeaklyOrders r P) {a b c : α} (ha : P a) (hb : P b) (hc : P c) :
    keep r (keep r a b) c = keep r a (keep r b c) := by
  unfold keep
  by_cases hab : r a b
  · by_cases hbc : r b c
    · simp [hab, hbc, h.trans ha hb hc hab hbc]
    · simp [hab, hbc]
  · by_cases hbc : r b c
    · simp [hab, hbc]
    · simp [hab, hbc, h.not_trans ha hb hc hab hbc]

theorem not_rel_keep_left (h : WeaklyOrders r P) {a b : α} (ha : P a) : ¬ r a (keep r a b) := by
  unfold keep
  by_cases hab : r a b
  · rw [if_pos hab]; exact h.irrefl ha
  · rw [if_neg hab]; exact hab

theorem not_rel_keep_right (h : WeaklyOrders r P) {a b : α} (ha : P a) (hb : P b) :
    ¬ r b (keep r a b) := by
  unfold keep
  by_cases hab : r a b
  · rw [if_pos hab]; exact h.asymm ha hb hab
  · rw [if_neg hab]; exact h.irrefl hb

end Keep

/-! ## Ordered numbers -/

section Ordered

variable {α : Type} [Scalar α] {P : α → Prop}

/-- On the values that satisfy `P`, `<` is a strict weak order and `≤` is its other half. -/
structure Ordered (P : α → Prop) : Prop where
  weak : WeaklyOrders (α := α) (· < ·) P
  le_of_not_lt : ∀ {a b : α}, P a → P b → ¬ b < a → a ≤ b

/-- On the values that satisfy `P`, `<` is a strict weak order, `≤` is just its other half, and `==` holds
of the values that are level. -/
structure Coherent (P : α → Prop) : Prop extends Ordered P where
  not_lt_of_le : ∀ {a b : α}, P a → P b → a ≤ b → ¬ b < a
  beq_iff : ∀ {a b : α}, P a → P b → (a == b ↔ ¬ a < b ∧ ¬ b < a)

theorem Coherent.le_iff (h : Coherent P) {a b : α} (ha : P a) (hb : P b) : a ≤ b ↔ ¬ b < a :=
  ⟨h.not_lt_of_le ha hb, h.le_of_not_lt ha hb⟩

end Ordered

/-! ## Doubles -/

section Doubles

open Float.Model (UnpackedFloat)

/-- Where a double lies among the doubles: first by its kind, then by its exponent, then by its
mantissa.  Both zeros lie in the same place. -/
def rank : UnpackedFloat → ℤ ×ₗ ℤ ×ₗ ℤ
  | .infinity .negative => toLex (-2, toLex (0, 0))
  | .finite .negative m e _ => toLex (-1, toLex (-e, -(m : ℤ)))
  | .zero _ => toLex (0, toLex (0, 0))
  | .finite .positive m e _ => toLex (1, toLex (e, (m : ℤ)))
  | .infinity .positive => toLex (2, toLex (0, 0))
  | .notANumber => toLex (3, toLex (0, 0))

private theorem compares_mantissa (e f : ℤ) (m n : ℕ) :
    ((compare e f).then (compare m n)).Compares (toLex (e, (m : ℤ))) (toLex (f, (n : ℤ))) := by
  rcases lt_trichotomy e f with hef | rfl | hef
  · rw [compare_lt_iff_lt.mpr hef]
    exact Prod.Lex.toLex_lt_toLex.mpr (Or.inl hef)
  · rw [compare_eq_iff_eq.mpr rfl]
    rcases lt_trichotomy m n with hmn | rfl | hmn
    · rw [compare_lt_iff_lt.mpr hmn]
      exact Prod.Lex.toLex_lt_toLex.mpr (Or.inr ⟨rfl, Int.ofNat_lt.mpr hmn⟩)
    · rw [compare_eq_iff_eq.mpr rfl]
      rfl
    · rw [compare_gt_iff_gt.mpr hmn]
      exact Prod.Lex.toLex_lt_toLex.mpr (Or.inr ⟨rfl, Int.ofNat_lt.mpr hmn⟩)
  · rw [compare_gt_iff_gt.mpr hef]
    exact Prod.Lex.toLex_lt_toLex.mpr (Or.inl hef)

private theorem compares_neg {o : Ordering} {e f m n : ℤ}
    (h : o.Compares (toLex (e, m)) (toLex (f, n))) :
    o.Compares (toLex (-f, -n)) (toLex (-e, -m)) := by
  cases o with
  | lt =>
    rcases Prod.Lex.toLex_lt_toLex.mp h with hef | ⟨hef, hmn⟩
    · exact Prod.Lex.toLex_lt_toLex.mpr (Or.inl (Int.neg_lt_neg hef))
    · exact Prod.Lex.toLex_lt_toLex.mpr (Or.inr ⟨by simp_all, Int.neg_lt_neg hmn⟩)
  | eq =>
    have hpair : (e, m) = (f, n) := toLex.injective h
    rcases Prod.mk.inj hpair with ⟨rfl, rfl⟩
    rfl
  | gt =>
    rcases Prod.Lex.toLex_lt_toLex.mp h with hef | ⟨hef, hmn⟩
    · exact Prod.Lex.toLex_lt_toLex.mpr (Or.inl (Int.neg_lt_neg hef))
    · exact Prod.Lex.toLex_lt_toLex.mpr (Or.inr ⟨by simp_all, Int.neg_lt_neg hmn⟩)

private theorem compares_kind (k : ℤ) {o : Ordering} {x y : ℤ ×ₗ ℤ} (h : o.Compares x y) :
    o.Compares (toLex (k, x)) (toLex (k, y)) := by
  cases o with
  | lt => exact Prod.Lex.toLex_lt_toLex.mpr (Or.inr ⟨rfl, h⟩)
  | eq => exact congrArg (fun z => toLex (k, z)) h
  | gt => exact Prod.Lex.toLex_lt_toLex.mpr (Or.inr ⟨rfl, h⟩)

theorem compare_rank {a b : UnpackedFloat} (ha : a.isNaN = false) (hb : b.isNaN = false) :
    ∃ o, a.compare b = some o ∧ o.Compares (rank a) (rank b) := by
  have hkind (i j : ℤ) (hij : i < j) (x y : ℤ ×ₗ ℤ) : toLex (i, x) < toLex (j, y) :=
    Prod.Lex.toLex_lt_toLex.mpr (Or.inl hij)
  rcases a with (_ | _) | _ | _ | ⟨_ | _, m, e, hm⟩ <;>
    rcases b with (_ | _) | _ | _ | ⟨_ | _, n, f, hn⟩ <;>
    first
    | exact absurd ha (by decide)
    | exact absurd hb (by decide)
    | exact ⟨_, rfl, rfl⟩
    | exact ⟨_, rfl, hkind _ _ (by decide) _ _⟩
    | skip
  · refine ⟨_, rfl, Ordering.compares_swap.mpr (compares_kind (-1) ?_)⟩
    exact compares_neg (compares_mantissa e f m n)
  · exact ⟨_, rfl, compares_kind 1 (compares_mantissa e f m n)⟩

theorem double_lt_iff {a b : Float} (ha : a.isNaN = false) (hb : b.isNaN = false) :
    a < b ↔ rank a.toModel.unpack < rank b.toModel.unpack := by
  rcases compare_rank ha hb with ⟨o, hcompare, ho⟩
  rw [← ho.eq_lt]
  show decide ((a.toModel.unpack.compare b.toModel.unpack == some .lt) = true) = true ↔ _
  rw [hcompare]
  cases o <;> decide

theorem double_le_iff {a b : Float} (ha : a.isNaN = false) (hb : b.isNaN = false) :
    a ≤ b ↔ rank a.toModel.unpack ≤ rank b.toModel.unpack := by
  rcases compare_rank ha hb with ⟨o, hcompare, ho⟩
  rw [← ho.ne_gt]
  show decide ((a.toModel.unpack.compare b.toModel.unpack).any (·.isLE) = true) = true ↔ _
  rw [hcompare]
  cases o <;> decide

theorem double_beq_iff {a b : Float} (ha : a.isNaN = false) (hb : b.isNaN = false) :
    a == b ↔ rank a.toModel.unpack = rank b.toModel.unpack := by
  rcases compare_rank ha hb with ⟨o, hcompare, ho⟩
  rw [← ho.eq_eq]
  show (a.toModel.unpack.compare b.toModel.unpack == some .eq) = true ↔ _
  rw [hcompare]
  cases o <;> decide

/-- Doubles that are numbers are ordered; the two zeros are level. -/
theorem ordered_double : Ordered (fun x : Float => x.isNaN = false) where
  weak :=
    { irrefl := fun a h => lt_irrefl _ ((double_lt_iff a.2 a.2).mp h)
      trans := fun a b c hab hbc => (double_lt_iff a.2 c.2).mpr
        (lt_trans ((double_lt_iff a.2 b.2).mp hab) ((double_lt_iff b.2 c.2).mp hbc))
      incomp_trans := by
        intro a b c hab hbc
        simp only [subrel_val, double_lt_iff, a.2, b.2, c.2, not_lt] at *
        exact ⟨le_trans hbc.1 hab.1, le_trans hab.2 hbc.2⟩ }
  le_of_not_lt := by
    intro a b ha hb hba
    rw [double_lt_iff hb ha, not_lt] at hba
    exact (double_le_iff ha hb).mpr hba

theorem coherent_double : Coherent (fun x : Float => x.isNaN = false) where
  toOrdered := ordered_double
  not_lt_of_le := by
    intro a b ha hb hab
    rw [double_lt_iff hb ha, not_lt]
    exact (double_le_iff ha hb).mp hab
  beq_iff := by
    intro a b ha hb
    rw [double_beq_iff ha hb, double_lt_iff ha hb, double_lt_iff hb ha, not_lt, not_lt]
    exact ⟨fun heq => ⟨heq.ge, heq.le⟩, fun ⟨hge, hle⟩ => le_antisymm hle hge⟩

end Doubles

end LSystem
