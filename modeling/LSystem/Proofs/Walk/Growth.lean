import LSystem.Proofs.Walk.Language
import Mathlib.Order.Bounds.Basic

/-!
# How much a word grows

The growth of a symbol is the largest number of symbols that it can become, counted without a limit
and from the top: the heaviest of its alternatives, where the symbols of an alternative weigh what
they become with one round less.  No derived word is longer (`length_le_growth`), and some derived
word is just so long (`exists_length_eq_growth`).  A table of counts holds the same numbers from the
bottom up, each as far as counts go (`Tabulates`); so the bound is the growth of the whole word, as far
as counts go.
-/

namespace LSystem.Grammar

open LSystem.Random (WordSource)

/-! ## Weights of words -/

/-- The sum of the weights of the symbols of a word. -/
def weigh (f : Symbol → Nat) (w : Word) : Nat := w.foldr (fun s n => f s + n) 0

/-- The weight of the heaviest of some words. -/
def heaviest (f : Symbol → Nat) (ws : Array Word) : Nat :=
  ws.foldl (fun n w => max n (weigh f w)) 0

section Weights

variable {f f' : Symbol → Nat}

theorem weigh_cons (s : Symbol) (w : Word) : weigh f (s :: w) = f s + weigh f w := rfl

theorem weigh_mono (h : ∀ s, f s ≤ f' s) (w : Word) : weigh f w ≤ weigh f' w := by
  induction w with
  | nil => exact Nat.le_refl 0
  | cons s w ih => exact Nat.add_le_add (h s) ih

theorem weigh_one (w : Word) : weigh (fun _ => 1) w = w.length := by
  induction w with
  | nil => rfl
  | cons s w ih => rw [weigh_cons, ih, List.length_cons, Nat.add_comm]

theorem weigh_replicate (n : Nat) (s : Symbol) : weigh f (List.replicate n s) = n * f s := by
  induction n with
  | zero => exact (Nat.zero_mul _).symm
  | succ n ih => rw [List.replicate_succ, weigh_cons, ih, Nat.succ_mul, Nat.add_comm]

theorem heaviest_singleton (w : Word) : heaviest f #[w] = weigh f w := Nat.zero_max _

theorem heaviest_eq (ws : Array Word) :
    heaviest f ws = ws.toList.foldl (fun n w => max n (weigh f w)) 0 :=
  (Array.foldl_toList _).symm

private theorem foldl_max_spec (ws : List Word) (n : Nat) :
    n ≤ ws.foldl (fun n w => max n (weigh f w)) n ∧
      (∀ w ∈ ws, weigh f w ≤ ws.foldl (fun n w => max n (weigh f w)) n) ∧
      (ws.foldl (fun n w => max n (weigh f w)) n = n ∨
        ∃ w ∈ ws, ws.foldl (fun n w => max n (weigh f w)) n = weigh f w) := by
  induction ws generalizing n with
  | nil => exact ⟨Nat.le_refl n, by simp, Or.inl rfl⟩
  | cons w ws ih =>
    obtain ⟨hle, hall, hex⟩ := ih (max n (weigh f w))
    rw [List.foldl_cons]
    refine ⟨by omega, ?_, ?_⟩
    · intro v hv
      rcases List.mem_cons.mp hv with rfl | hv
      · omega
      · exact hall v hv
    · rcases hex with heq | ⟨v, hv, heq⟩
      · rcases Nat.le_total n (weigh f w) with hnw | hnw
        · exact Or.inr ⟨w, List.mem_cons_self, by omega⟩
        · exact Or.inl (by omega)
      · exact Or.inr ⟨v, List.mem_cons_of_mem w hv, heq⟩

theorem weigh_le_heaviest {ws : Array Word} {w : Word} (h : w ∈ ws) :
    weigh f w ≤ heaviest f ws := by
  rw [heaviest_eq]
  exact (foldl_max_spec ws.toList 0).2.1 w (Array.mem_toList_iff.mpr h)

theorem exists_weigh_eq_heaviest {ws : Array Word} (h : 0 < ws.size) :
    ∃ w ∈ ws, weigh f w = heaviest f ws := by
  have hspec := foldl_max_spec (f := f) ws.toList 0
  rw [← heaviest_eq] at hspec
  rcases hspec with ⟨-, hall, heq | ⟨w, hw, heq⟩⟩
  · have hfirst : ws[0] ∈ ws := Array.getElem_mem h
    have hle := weigh_le_heaviest (f := f) hfirst
    exact ⟨ws[0], hfirst, by omega⟩
  · exact ⟨w, Array.mem_toList_iff.mp hw, heq.symm⟩

theorem heaviest_mono (h : ∀ s, f s ≤ f' s) (ws : Array Word) : heaviest f ws ≤ heaviest f' ws := by
  rcases Nat.eq_zero_or_pos ws.size with hsize | hsize
  · rw [Array.eq_empty_of_size_eq_zero hsize]
    exact Nat.le_refl 0
  · obtain ⟨w, hw, heq⟩ := exists_weigh_eq_heaviest (f := f) hsize
    exact heq ▸ (weigh_mono h w).trans (weigh_le_heaviest hw)

end Weights

/-! ## Growth -/

/-- The largest number of symbols that a symbol can become in some rounds. -/
def growth (g : Grammar) : (rounds : Nat) → Symbol → Nat
  | 0, _ => 1
  | rounds + 1, s => if g.isTerminal s then 1 else heaviest (growth g rounds) (g.alternatives s)

variable {g : Grammar} {σ : Type} [WordSource σ]

theorem growth_of_terminal {s : Symbol} (h : ¬ 0 < (g.alternatives s).size) (rounds : Nat) :
    g.growth rounds s = 1 := by
  cases rounds with
  | zero => rfl
  | succ rounds => rw [growth, if_pos (isTerminal_iff.mpr h)]

theorem growth_of_alternatives {s : Symbol} (h : 0 < (g.alternatives s).size) (rounds : Nat) :
    g.growth (rounds + 1) s = heaviest (g.growth rounds) (g.alternatives s) := by
  rw [growth, if_neg fun hs => isTerminal_iff.mp hs h]

theorem length_le_growth {n : Nat} {w v : Word} (h : g.Derives n w v) :
    v.length ≤ weigh (g.growth n) w := by
  -- On the rounds, as an alternative has one less left, and then on the word.
  induction n generalizing w v with
  | zero =>
    cases h
    exact (weigh_one w).ge
  | succ n ih =>
    induction w generalizing v with
    | nil =>
      obtain rfl := derives_nil_iff.mp h
      exact Nat.le_refl 0
    | cons s w ihw =>
      obtain ⟨a, b, rfl, ha, hb⟩ := derives_cons_iff.mp h
      have hs : a.length ≤ g.growth (n + 1) s := by
        by_cases hs : 0 < (g.alternatives s).size
        · obtain ⟨part, hpart, hrest⟩ := (derives_alternatives_iff hs).mp ha
          rw [growth_of_alternatives hs]
          exact (ih hrest).trans (weigh_le_heaviest hpart)
        · obtain rfl := (derives_terminal_iff (isTerminal_iff.mpr hs)).mp ha
          exact (growth_of_terminal hs _).ge
      rw [List.length_append, weigh_cons]
      exact Nat.add_le_add hs (ihw hb)

theorem exists_length_eq_growth (g : Grammar) (n : Nat) (w : Word) :
    ∃ v, g.Derives n w v ∧ v.length = weigh (g.growth n) w := by
  induction n generalizing w with
  | zero => exact ⟨w, .refl w, (weigh_one w).symm⟩
  | succ n ih =>
    induction w with
    | nil => exact ⟨[], derives_nil_iff.mpr rfl, rfl⟩
    | cons s w ihw =>
      obtain ⟨b, hb, hblength⟩ := ihw
      have hs : ∃ a, g.Derives (n + 1) [s] a ∧ a.length = g.growth (n + 1) s := by
        by_cases hs : 0 < (g.alternatives s).size
        · obtain ⟨part, hpart, heq⟩ := exists_weigh_eq_heaviest (f := g.growth n) hs
          obtain ⟨a, ha, halength⟩ := ih part
          refine ⟨a, (derives_alternatives_iff hs).mpr ⟨part, hpart, ha⟩, ?_⟩
          rw [halength, heq, growth_of_alternatives hs]
        · refine ⟨[s], (derives_terminal_iff (isTerminal_iff.mpr hs)).mpr rfl, ?_⟩
          exact (growth_of_terminal hs _).symm
      obtain ⟨a, ha, halength⟩ := hs
      refine ⟨a ++ b, derives_cons_iff.mpr ⟨a, b, rfl, ha, hb⟩, ?_⟩
      rw [List.length_append, weigh_cons, halength, hblength]

theorem length_leaves_le (g : Grammar) (rounds : Nat) (w : Word) (source : σ) :
    (g.leaves rounds w source).length ≤ weigh (g.growth rounds) w :=
  length_le_growth (g.derives_leaves rounds w source)

/-- The growth of a word is the largest number of symbols that a walk of it carries out. -/
theorem isGreatest_length_leaves (hg : g.TellsApart) (rounds : Nat) (w : Word) :
    IsGreatest (Set.range fun draws : Stream' UInt64 => (g.leaves rounds w draws).length)
      (weigh (g.growth rounds) w) := by
  constructor
  · obtain ⟨v, hv, hlength⟩ := g.exists_length_eq_growth rounds w
    obtain ⟨draws, hdraws⟩ := exists_draws hg rounds w v hv
    refine ⟨draws ++ₛ Stream'.const 0, ?_⟩
    dsimp only
    rw [leaves_eq, hdraws, hlength]
  · rintro _ ⟨draws, rfl⟩
    exact g.length_leaves_le rounds w draws

/-! ## Counts -/

/-- A table holds the values of a function, as far as counts go. -/
def Tabulates (table : Array Nat) (f : Symbol → Nat) : Prop :=
  ∀ s, table.getD s.id 1 = min (f s) maxCount

theorem one_le_maxCount : 1 ≤ maxCount := by decide

theorem Tabulates.wordCount_eq {table : Array Nat} {f : Symbol → Nat} (h : Tabulates table f)
    (w : Word) : wordCount table w = min (weigh f w) maxCount := by
  -- A sum that has been cut off stays cut off, whatever is added to it.
  have hfold (n : Nat) :
      w.foldl (fun count s => addCount count (table.getD s.id 1)) (min n maxCount) =
        min (n + weigh f w) maxCount := by
    induction w generalizing n with
    | nil => rfl
    | cons s w ih =>
      have hstep : addCount (min n maxCount) (table.getD s.id 1) = min (n + f s) maxCount := by
        rw [addCount, h s]
        omega
      rw [List.foldl_cons, hstep, ih, weigh_cons, Nat.add_assoc]
  have hzero := hfold 0
  rwa [Nat.zero_min, Nat.zero_add] at hzero

theorem Tabulates.foldl_max_eq {table : Array Nat} {f : Symbol → Nat} (h : Tabulates table f)
    (ws : Array Word) :
    ws.foldl (fun count w => max count (wordCount table w)) 0 = min (heaviest f ws) maxCount := by
  have hfold (ws : List Word) (n : Nat) :
      ws.foldl (fun count w => max count (wordCount table w)) (min n maxCount) =
        min (ws.foldl (fun n w => max n (weigh f w)) n) maxCount := by
    induction ws generalizing n with
    | nil => rfl
    | cons w ws ih =>
      have hstep : max (min n maxCount) (wordCount table w) = min (max n (weigh f w)) maxCount := by
        rw [h.wordCount_eq]
        omega
      rw [List.foldl_cons, hstep, ih, List.foldl_cons]
  have hzero := hfold ws.toList 0
  rwa [Nat.zero_min, Array.foldl_toList, ← heaviest_eq] at hzero

theorem tabulates_ones (g : Grammar) (size : Nat) :
    Tabulates (Array.replicate size 1) (g.growth 0) := by
  intro s
  rw [growth, Nat.min_eq_left one_le_maxCount, Array.getD_eq_getD_getElem?, Array.getElem?_replicate]
  split <;> rfl

-- Only the id of a symbol is looked at.
theorem alternatives_congr {s t : Symbol} (h : s.id = t.id) :
    g.alternatives s = g.alternatives t := by
  rw [alternatives, h, alternatives]

theorem WellFormed.terminal_of_unknown (hg : g.WellFormed) {s : Symbol}
    (h : g.symbols[s.id]? = none) : ¬ 0 < (g.alternatives s).size := by
  have hid : g.rules.size ≤ s.id := hg.size_rules ▸ List.getElem?_eq_none_iff.mp h
  rw [alternatives, Array.getD_eq_getD_getElem?, Array.getElem?_eq_none hid]
  exact Nat.lt_irrefl 0

theorem WellFormed.tabulates_nextTable (hg : g.WellFormed) {table : Array Nat} {rounds : Nat}
    (h : Tabulates table (g.growth rounds)) :
    Tabulates (g.nextTable table) (g.growth (rounds + 1)) := by
  intro s
  rw [nextTable, Array.getD_eq_getD_getElem?, List.getElem?_toArray, List.getElem?_map]
  cases ht : g.symbols[s.id]? with
  | none =>
    -- The default of the table is what a symbol beyond it becomes.
    rw [growth_of_terminal (hg.terminal_of_unknown ht), Nat.min_eq_left one_le_maxCount]
    rfl
  | some t =>
    have hts : g.alternatives t = g.alternatives s := alternatives_congr (hg.consistent.id_eq ht)
    rw [Option.map_some, Option.getD_some, hts, growth, isTerminal]
    dsimp only
    rw [h.foldl_max_eq]
    split
    · exact (Nat.min_eq_left one_le_maxCount).symm
    · rfl

/-- Leaving early changes nothing: once a round changes nothing, no further one does. -/
theorem tableAfter_eq_iterate (g : Grammar) (rounds : Nat) (table : Array Nat) :
    g.tableAfter rounds table = g.nextTable^[rounds] table := by
  induction rounds generalizing table with
  | zero => rfl
  | succ rounds ih =>
    rw [tableAfter]
    split
    · rename_i hfixed
      exact (Function.iterate_fixed hfixed _).symm
    · rw [ih, Function.iterate_succ_apply]

theorem WellFormed.tabulates_tableAfter (hg : g.WellFormed) (rounds size : Nat) :
    Tabulates (g.tableAfter rounds (Array.replicate size 1)) (g.growth rounds) := by
  rw [tableAfter_eq_iterate]
  induction rounds with
  | zero => exact g.tabulates_ones size
  | succ rounds ih =>
    rw [Function.iterate_succ_apply']
    exact hg.tabulates_nextTable ih

/-- The bound is the growth of the word, as far as counts go. -/
theorem WellFormed.bound_eq (hg : g.WellFormed) (w : Word) (rounds : Nat) :
    g.bound w rounds = min (weigh (g.growth rounds) w) maxCount :=
  (hg.tabulates_tableAfter rounds _).wordCount_eq w

end LSystem.Grammar
