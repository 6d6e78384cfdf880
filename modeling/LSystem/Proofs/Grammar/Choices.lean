import LSystem.Proofs.Random.Share
import LSystem.Proofs.Walk.Expansion
import Mathlib.Algebra.Order.BigOperators.Group.Finset
import Mathlib.Data.Fintype.Fin

/-!
# How often a replacement is chosen

A symbol with `n` alternatives is replaced by the one at the place that the next word falls to.  So a
replacement gets the `n`-th part of all words once for each time that it stands among the
alternatives, up to the rounding of each of these parts (`card_draws_bounds`).
-/

namespace LSystem.Grammar

open LSystem.Number (twoTo)
open LSystem.Random (WordSource choose place place_lt place_mono share card_share
  abs_probability_sub_lt)

/-- What a symbol is replaced by if `draw` is the next word of the source. -/
def replacement? (g : Grammar) (s : Symbol) (draw : UInt64) : Option Word :=
  (g.rewrite? s (Stream'.cons draw (Stream'.const 0))).map Prod.fst

/-- The words for which a symbol is replaced by `w`. -/
def draws (g : Grammar) (s : Symbol) (w : Word) : Finset UInt64 :=
  {draw | g.replacement? s draw = some w}

variable {g : Grammar} {s : Symbol}

theorem replacement?_eq (h : 0 < (g.alternatives s).size) (draw : UInt64) :
    g.replacement? s draw = some (g.pick s h draw) := by
  rw [replacement?, rewrite?_of_alternatives h]
  rfl

/-- Of a source only the next word matters. -/
theorem map_fst_rewrite? {σ : Type} [WordSource σ] (g : Grammar) (s : Symbol) (source : σ) :
    (g.rewrite? s source).map Prod.fst = g.replacement? s (WordSource.next source).1 := by
  by_cases h : 0 < (g.alternatives s).size
  · rw [replacement?_eq h, rewrite?_of_alternatives h]
    rfl
  · rw [replacement?, rewrite?_of_terminal h, rewrite?_of_terminal h]
    rfl

theorem card_places_eq_count {β : Type} [eq : BEq β] [LawfulBEq β] [DecidableEq β] (xs : Array β)
    (x : β) : Finset.card {i : Fin xs.size | xs[i] = x} = xs.count x := by
  have hcount := Fin.card_filter_univ_eq_vector_get_eq_count x ⟨xs.toList, rfl⟩
  obtain rfl : eq = instBEqOfDecidableEq := lawful_beq_subsingleton _ _
  rw [← Array.count_toList]
  exact hcount

/-- The words of a replacement are those of its places. -/
theorem card_draws (h : 0 < (g.alternatives s).size) (w : Word) :
    (g.draws s w).card =
      ∑ i : Fin (g.alternatives s).size with (g.alternatives s)[i] = w,
        (share (g.alternatives s).size i).card := by
  let spot (draw : UInt64) : Fin (g.alternatives s).size := ⟨place draw _, place_lt draw h⟩
  have hdraws (draw : UInt64) :
      g.replacement? s draw = some w ↔ (g.alternatives s)[spot draw] = w := by
    rw [replacement?_eq h, Option.some_inj]
    rfl
  have hspots : Set.MapsTo spot (g.draws s w)
      (Finset.univ.filter fun i : Fin (g.alternatives s).size => (g.alternatives s)[i] = w) := by
    intro draw hdraw
    simpa [draws, hdraws] using hdraw
  rw [Finset.card_eq_sum_card_fiberwise hspots]
  refine Finset.sum_congr rfl fun i hi => congrArg Finset.card ?_
  have hi' : (g.alternatives s)[i] = w := (Finset.mem_filter.mp hi).2
  -- A word of the place is a word of the replacement, as this stands there.
  ext draw
  simp only [draws, share, Finset.mem_filter, Finset.mem_univ, true_and, hdraws]
  constructor
  · rintro ⟨-, hspot⟩
    exact congrArg Fin.val hspot
  · intro hplace
    have hspot : spot draw = i := Fin.ext hplace
    exact ⟨hspot ▸ hi', hspot⟩

theorem card_draws_bounds (h : 0 < (g.alternatives s).size) (w : Word) :
    (g.alternatives s).count w * (twoTo 64 / (g.alternatives s).size) ≤ (g.draws s w).card ∧
      (g.draws s w).card ≤ (g.alternatives s).count w * (twoTo 64 ⌈/⌉ (g.alternatives s).size) := by
  have hround : twoTo 64 / (g.alternatives s).size ≤ twoTo 64 ⌈/⌉ (g.alternatives s).size :=
    (Nat.floorDiv_eq_div _ _).symm.trans_le floorDiv_le_ceilDiv
  rw [card_draws h, ← card_places_eq_count]
  constructor
  · refine Finset.card_nsmul_le_sum _ _ _ fun i _ => ?_
    rcases card_share i.isLt with hdown | hup
    · exact hdown.ge
    · exact hup ▸ hround
  · refine Finset.sum_le_card_nsmul _ _ _ fun i _ => ?_
    rcases card_share i.isLt with hdown | hup
    · exact hdown ▸ hround
    · exact hup.le

/-- As long as there are no more alternatives than words, each of them gets a word. -/
theorem draws_nonempty_iff (h : 0 < (g.alternatives s).size)
    (hsize : (g.alternatives s).size ≤ twoTo 64) (w : Word) :
    (g.draws s w).Nonempty ↔ w ∈ g.alternatives s := by
  obtain ⟨hlow, hhigh⟩ := card_draws_bounds h w
  have hpart : 0 < twoTo 64 / (g.alternatives s).size := Nat.div_pos hsize h
  rw [← Finset.card_pos, ← Array.count_pos_iff]
  constructor
  · intro hcard
    exact Nat.pos_of_mul_pos_right (Nat.lt_of_lt_of_le hcard hhigh)
  · intro hcount
    exact Nat.lt_of_lt_of_le (Nat.mul_pos hcount hpart) hlow

/-- Choices are as fair as words of 64 bits allow.  A larger word never falls to an earlier place;
all fall to places below `n`; and of all words each place gets the `n`-th part, rounded down or up,
so that its probability is off by less than one word.  So a symbol with `n` alternatives is replaced
by one of them for so many words times the number of its repetitions, and each can be met. -/
theorem choices_fair :
    (∀ n : ℕ, 0 < n →
      (∀ {σ : Type} [WordSource σ] (source : σ),
        (choose source n).1 = place (WordSource.next source).1 n) ∧
      (∀ v w : UInt64, v ≤ w → place v n ≤ place w n) ∧
      (∀ word : UInt64, place word n < n) ∧
      ∀ k < n,
        ((share n k).card = twoTo 64 / n ∨ (share n k).card = twoTo 64 ⌈/⌉ n) ∧
          |((share n k).card : ℚ) / twoTo 64 - 1 / n| < 1 / twoTo 64) ∧
    ∀ (g : Grammar) (s : Symbol), 0 < (g.alternatives s).size →
      (∀ {σ : Type} [WordSource σ] (source : σ),
        (g.rewrite? s source).map Prod.fst = g.replacement? s (WordSource.next source).1) ∧
      ∀ w : Word,
        let n := (g.alternatives s).size
        let m := (g.alternatives s).count w
        m * (twoTo 64 / n) ≤ (g.draws s w).card ∧ (g.draws s w).card ≤ m * (twoTo 64 ⌈/⌉ n) ∧
          (n < twoTo 64 → ((g.draws s w).Nonempty ↔ w ∈ g.alternatives s)) := by
  refine ⟨fun n hn => ⟨fun _ => rfl, fun v w h => place_mono h n, fun word => place_lt word hn,
    fun k hk => ⟨card_share hk, abs_probability_sub_lt hk⟩⟩, fun g s h => ⟨g.map_fst_rewrite? s, ?_⟩⟩
  intro w n m
  obtain ⟨hlow, hhigh⟩ := card_draws_bounds h w
  exact ⟨hlow, hhigh, fun hsize => draws_nonempty_iff h hsize.le w⟩

/-- A stem that grows twice as often as it stays as it is. -/
def eager : Grammar :=
  let stem : Symbol := ⟨0, 'F'⟩
  { alphabet := .extend {} ['F']
    actions := #[some .draw]
    rules := #[#[[stem, stem], [stem], [stem, stem]]]
    initial := [stem] }

theorem choices_fair_eager :
    let stem : Symbol := ⟨0, 'F'⟩
    (eager.alternatives stem).size = 3 ∧ (eager.alternatives stem).count [stem, stem] = 2 ∧
      2 * (twoTo 64 / 3) ≤ (eager.draws stem [stem, stem]).card ∧
      (eager.draws stem [stem, stem]).card ≤ 2 * (twoTo 64 ⌈/⌉ 3) ∧
      (eager.draws stem [stem]).Nonempty := by
  intro stem
  have hcount : (eager.alternatives stem).count [stem, stem] = 2 := by decide
  have hmem : [stem] ∈ eager.alternatives stem := Array.mem_iff_getElem.mpr ⟨1, by decide, rfl⟩
  obtain ⟨-, hdraws⟩ := choices_fair.2 eager stem (by decide)
  obtain ⟨hlow, hhigh, -⟩ := hdraws [stem, stem]
  obtain ⟨-, -, hmet⟩ := hdraws [stem]
  rw [hcount] at hlow hhigh
  exact ⟨rfl, hcount, hlow, hhigh, (hmet (by decide)).mpr hmem⟩

end LSystem.Grammar
