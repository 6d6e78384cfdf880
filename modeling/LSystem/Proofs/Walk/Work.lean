import LSystem.Proofs.Walk.Growth

/-!
# How many symbols a walk visits

The symbols that a walk visits at one depth are among those that a walk with just so many rounds
carries out, so the visits at all depths are at most the growths for all numbers of rounds up to its
own, added up (`length_visits_le`).  Growth may fall from one round to the next, as words can die out;
then the last growth says nothing about the visits (`withering`).  Where no word dies out it never
falls, and the last growth stands for all of them (`Lasting.length_visits_le`).
-/

namespace LSystem.Grammar

open LSystem.Random (WordSource)

section Weights

variable {f f' : Symbol → Nat}

theorem weigh_add (w : Word) : weigh (fun s => f s + f' s) w = weigh f w + weigh f' w := by
  induction w with
  | nil => rfl
  | cons s w ih =>
    rw [weigh_cons, weigh_cons, weigh_cons, ih]
    omega

end Weights

/-! ## Work -/

/-- The growths of a symbol for all numbers of rounds up to some, added up. -/
def work (g : Grammar) : (rounds : Nat) → Symbol → Nat
  | 0, s => g.growth 0 s
  | rounds + 1, s => work g rounds s + g.growth (rounds + 1) s

variable {g : Grammar} {σ : Type} [WordSource σ]

theorem one_le_work (g : Grammar) (rounds : Nat) (s : Symbol) : 1 ≤ g.work rounds s := by
  induction rounds with
  | zero => exact Nat.le_refl 1
  | succ rounds ih => exact ih.trans (Nat.le_add_right _ _)

-- The symbol itself is the one visit more.
theorem succ_weigh_work_le {s : Symbol} {part : Word} (h : part ∈ g.alternatives s)
    (rounds : Nat) : weigh (g.work rounds) part + 1 ≤ g.work (rounds + 1) s := by
  have hsize : 0 < (g.alternatives s).size := Array.size_pos_of_mem h
  have hgrowth (n : Nat) : weigh (g.growth n) part ≤ g.growth (n + 1) s := by
    rw [growth_of_alternatives hsize]
    exact weigh_le_heaviest h
  induction rounds with
  | zero =>
    have hone : weigh (g.growth 0) part ≤ g.growth 1 s := hgrowth 0
    change weigh (g.growth 0) part + 1 ≤ 1 + g.growth 1 s
    omega
  | succ rounds ih =>
    have hadd : weigh (g.work (rounds + 1)) part =
        weigh (g.work rounds) part + weigh (g.growth (rounds + 1)) part := weigh_add part
    have hnext := hgrowth (rounds + 1)
    rw [work, hadd]
    omega

theorem length_visits_le (g : Grammar) (rounds : Nat) (w : Word) (source : σ) :
    (g.visits rounds w source).1.length ≤ weigh (g.work rounds) w := by
  induction rounds, w, source using visits_induction (σ := σ) (g := g) with
  | zero w source =>
    rw [visits_zero, List.length_map]
    exact (weigh_one w).ge
  | nil rounds source =>
    rw [visits_nil]
    exact Nat.zero_le _
  | terminal rounds s source h =>
    -- It is visited once, and counted again for every round.
    rw [visits_of_terminal h]
    exact g.one_le_work _ s
  | replaced rounds s source h ih =>
    rw [visits_of_alternatives h]
    exact (Nat.succ_le_succ ih).trans (succ_weigh_work_le (Array.getElem_mem _) rounds)
  | cons rounds s w source ihs ihw =>
    rw [visits_cons g (rounds + 1) s w, List.length_append, weigh_cons]
    exact Nat.add_le_add ihs ihw

theorem length_visits_le_mul {rounds limit : Nat} {w : Word}
    (h : ∀ n ≤ rounds, weigh (g.growth n) w ≤ limit) (source : σ) :
    (g.visits rounds w source).1.length ≤ (rounds + 1) * limit := by
  have hwork (n : Nat) (hn : n ≤ rounds) : weigh (g.work n) w ≤ (n + 1) * limit := by
    induction n with
    | zero => exact (h 0 hn).trans (Nat.one_mul limit).ge
    | succ n ih =>
      have hadd : weigh (g.work (n + 1)) w = weigh (g.work n) w + weigh (g.growth (n + 1)) w :=
        weigh_add w
      have hrest := ih (Nat.le_of_succ_le hn)
      have hlast := h (n + 1) hn
      rw [hadd, Nat.add_mul (n + 1) 1, Nat.one_mul]
      omega
  exact (g.length_visits_le rounds w source).trans (hwork rounds (Nat.le_refl _))

/-! ## Grammars whose words do not die out -/

/-- A symbol that can be replaced can be replaced by some symbol at least. -/
def Lasting (g : Grammar) : Prop :=
  ∀ s, 0 < (g.alternatives s).size → ∃ w ∈ g.alternatives s, w ≠ []

theorem lasting_of_rules (h : ∀ ws ∈ g.rules, 0 < ws.size → ∃ w ∈ ws, w ≠ []) : g.Lasting := by
  intro s hs
  rcases g.alternatives_eq_empty_or_mem s with hempty | hmem
  · rw [hempty] at hs
    exact absurd hs (Nat.lt_irrefl 0)
  · exact h _ hmem hs

namespace Lasting

theorem growth_le_succ (h : g.Lasting) (rounds : Nat) (s : Symbol) :
    g.growth rounds s ≤ g.growth (rounds + 1) s := by
  induction rounds generalizing s with
  | zero =>
    by_cases hs : 0 < (g.alternatives s).size
    · obtain ⟨w, hw, hne⟩ := h s hs
      have hlength : 1 ≤ weigh (g.growth 0) w := by
        have hpos := List.length_pos_iff.mpr hne
        have hone : weigh (g.growth 0) w = w.length := weigh_one w
        omega
      rw [growth_of_alternatives hs]
      exact hlength.trans (weigh_le_heaviest hw)
    · exact (growth_of_terminal hs 1).ge
  | succ rounds ih =>
    by_cases hs : 0 < (g.alternatives s).size
    · rw [growth_of_alternatives hs, growth_of_alternatives hs]
      exact heaviest_mono ih _
    · rw [growth_of_terminal hs, growth_of_terminal hs]

theorem growth_mono (h : g.Lasting) {m n : Nat} (hmn : m ≤ n) (s : Symbol) :
    g.growth m s ≤ g.growth n s := by
  induction hmn with
  | refl => exact Nat.le_refl _
  | step _ ih => exact ih.trans (h.growth_le_succ _ s)

theorem length_visits_le (h : g.Lasting) (rounds : Nat) (w : Word) (source : σ) :
    (g.visits rounds w source).1.length ≤ (rounds + 1) * weigh (g.growth rounds) w :=
  length_visits_le_mul (fun _ hn => weigh_mono (h.growth_mono hn) w) source

end Lasting

/-! ## A word that dies out -/

/-- A stem with some buds, which all fall off. -/
def withering (buds : Nat) : Grammar :=
  let stem : Symbol := ⟨0, 'A'⟩
  let bud : Symbol := ⟨1, 'B'⟩
  { alphabet := .extend {} ['A', 'B']
    actions := #[none, none]
    rules := #[#[List.replicate buds bud], #[[]]]
    initial := [stem] }

theorem built_withering (buds : Nat) : (withering buds).Built := by
  let text := String.ofList (List.replicate buds 'B')
  let before := (({ source := .ofSeed 0 } : Store).run [.setInitial "A", .addRule 'B' ""]).grammar
  refine ⟨.ofSeed 0, [.setInitial "A", .addRule 'B' "", .addRule 'A' text], ?_⟩
  have hbefore : before.WellFormed := Store.wellFormed_run wellFormed_empty _
  have htext : text.toList = List.replicate buds 'B' := String.toList_ofList
  -- Both characters have been seen before the buds come.
  have hseen : 'A' :: text.toList ⊆ before.alphabet.chars := by
    have hchars : before.alphabet.chars = ['A', 'B'] := rfl
    intro c hc
    rw [htext, List.mem_cons, List.mem_replicate] at hc
    rw [hchars]
    rcases hc with rfl | ⟨-, rfl⟩ <;> decide
  have hword : before.alphabet.word text.toList = List.replicate buds ⟨1, 'B'⟩ := by
    rw [htext, Alphabet.word, List.map_replicate]
    rfl
  change before.addRule 'A' text = withering buds
  rw [hbefore.addRule_of_seen hseen, hword]
  rfl

theorem visits_withering (buds : Nat) (source : σ) :
    ((withering buds).visits 2 (withering buds).initial source).1 =
      .replaced ⟨0, 'A'⟩ :: List.replicate buds (.replaced ⟨1, 'B'⟩) := by
  have hstem : (withering buds).alternatives ⟨0, 'A'⟩ = #[List.replicate buds ⟨1, 'B'⟩] := rfl
  have hbud : (withering buds).alternatives ⟨1, 'B'⟩ = #[[]] := rfl
  have hbuds (n : Nat) (source : σ) :
      ((withering buds).visits 1 (List.replicate n ⟨1, 'B'⟩) source).1 =
        List.replicate n (.replaced ⟨1, 'B'⟩) := by
    induction n generalizing source with
    | zero => rfl
    | succ n ih =>
      rw [List.replicate_succ, visits_cons]
      dsimp only
      rw [ih, visits_of_single hbud]
      rfl
  exact (visits_of_single hstem 1 source).trans (congrArg _ (hbuds buds _))

theorem growth_withering (buds : Nat) :
    weigh ((withering buds).growth 2) (withering buds).initial = 0 := by
  have hbud : (withering buds).growth 1 ⟨1, 'B'⟩ = 0 := rfl
  calc
    weigh ((withering buds).growth 2) (withering buds).initial
      = heaviest ((withering buds).growth 1) #[List.replicate buds ⟨1, 'B'⟩] := rfl
    _ = buds * (withering buds).growth 1 ⟨1, 'B'⟩ := by rw [heaviest_singleton, weigh_replicate]
    _ = 0 := by rw [hbud, Nat.mul_zero]

end LSystem.Grammar
