import LSystem.Figure.Basic
import LSystem.Proofs.Walk.Work

/-!
# What a budget promises

The bound of a grammar is the largest number of symbols that any walk carries out, as far as counts
go, and a figure within its limits is one whose bound is (`bound_eq_min_greatest`).  How many symbols
are visited on the way is another matter: a word can grow and die out again before the last round, and
then there is nothing left that the bound could count (`checkBudget_withering`).  Where no word dies
out, no word on the way is longer than the bound (`work_of_accepted`).
-/

namespace LSystem

open LSystem.Random (Source WordSource)
open Grammar (withering budding stretching maxCount growth weigh built_withering growth_withering
  visits_withering one_le_maxCount isGreatest_length_leaves)

namespace Figure

variable {α : Type}

theorem checkBudget_eq_ok {f : Figure α} {rounds n : Nat} {options : Options α} :
    f.checkBudget rounds options = .ok n ↔
      rounds ≤ options.maxRounds ∧ n = f.grammar.bound f.grammar.initial rounds ∧
        n ≤ options.maxSymbols := by
  unfold checkBudget
  by_cases hrounds : options.maxRounds < rounds
  · rw [if_pos hrounds]
    constructor
    · intro h
      nomatch h
    · rintro ⟨hle, -, -⟩
      exact absurd hle (Nat.not_le_of_lt hrounds)
  · rw [if_neg hrounds]
    dsimp only
    by_cases hbound : options.maxSymbols < f.grammar.bound f.grammar.initial rounds
    · rw [if_pos hbound]
      constructor
      · intro h
        nomatch h
      · rintro ⟨-, rfl, hle⟩
        exact absurd hle (Nat.not_le_of_lt hbound)
    · rw [if_neg hbound]
      constructor
      · intro h
        obtain rfl := Except.ok.inj h
        exact ⟨Nat.le_of_not_lt hrounds, rfl, Nat.le_of_not_lt hbound⟩
      · rintro ⟨-, rfl, -⟩
        rfl

/-! ## What is carried out -/

/-- For every word and number of rounds there is a largest number of symbols that a walk carries out,
over everything that can be drawn.  The bound is this number, as far as counts go: if the bound is
below the largest count, no walk carries out more and some walk just as many.  That the rounds are
left early changes no table, and a figure is admitted exactly if its rounds and its bound are within
the limits. -/
theorem bound_eq_min_greatest {g : Grammar} (hg : g.Built) (happart : g.TellsApart) (w : Word)
    (rounds : Nat) :
    ∃ most : Nat,
      IsGreatest (Set.range fun draws : Stream' UInt64 => (g.leaves rounds w draws).length) most ∧
      (∀ {α τ σ : Type} [Scalar α] [Performer τ α] [WordSource σ] (t : τ) (source : σ),
        (g.walk rounds w t source).2.1 = g.carry (g.leaves rounds w source) t ∧
          (g.leaves rounds w source).length ≤ most) ∧
      g.bound w rounds = min most maxCount ∧
      (g.bound w rounds < maxCount → g.bound w rounds = most) ∧
      (∀ table, g.tableAfter rounds table = g.nextTable^[rounds] table) ∧
      ∀ {α : Type} (f : Figure α) (options : Options α) (n : Nat),
        f.grammar = g → g.initial = w →
          (f.checkBudget rounds options = .ok n ↔
            rounds ≤ options.maxRounds ∧ n = min most maxCount ∧ n ≤ options.maxSymbols) := by
  have hbound := hg.wellFormed.bound_eq w rounds
  refine ⟨weigh (g.growth rounds) w, isGreatest_length_leaves happart rounds w, ?_, hbound, ?_,
    g.tableAfter_eq_iterate rounds, ?_⟩
  · intro α τ σ _ _ _ t source
    exact ⟨congrArg Prod.fst (g.walk_eq_leaves rounds w t source), g.length_leaves_le rounds w source⟩
  · intro hlt
    omega
  · rintro α f options n rfl rfl
    rw [checkBudget_eq_ok, hbound]

theorem bound_eq_min_greatest_budding :
    budding.Built ∧ budding.TellsApart ∧ budding.bound budding.initial 2 = 8 ∧
      (∃ draws : Stream' UInt64, (budding.leaves 2 budding.initial draws).length = 8) ∧
      ∀ draws : Stream' UInt64, (budding.leaves 2 budding.initial draws).length ≤ 8 := by
  let requests : List Request :=
    [.setInitial "BS", .bind 'S' .draw, .addRule 'B' "SBB", .addRule 'B' "S", .addRule 'B' ""]
  have hrun : (({ source := .ofSeed 0 } : Store).run requests).grammar = budding := rfl
  have hbuilt : budding.Built := ⟨.ofSeed 0, requests, hrun⟩
  have happart : budding.TellsApart := hrun ▸ Grammar.tellsApart_run (.ofSeed 0) (by decide)
  have height : budding.bound budding.initial 2 = 8 := by decide +kernel
  obtain ⟨most, ⟨hattained, hgreatest⟩, -, -, hmost, -⟩ :=
    bound_eq_min_greatest hbuilt happart budding.initial 2
  obtain rfl : 8 = most := height ▸ hmost (height ▸ by decide)
  exact ⟨hbuilt, happart, height, hattained, fun draws => hgreatest ⟨draws, rfl⟩⟩

/-! ## What is visited -/

theorem growth_of_accepted {f : Figure α} {rounds n : Nat} {options : Options α}
    (hf : f.grammar.Built) (hlimit : options.maxSymbols < maxCount)
    (h : f.checkBudget rounds options = .ok n) :
    weigh (f.grammar.growth rounds) f.grammar.initial = n ∧ n ≤ options.maxSymbols := by
  obtain ⟨-, hn, hle⟩ := checkBudget_eq_ok.mp h
  have hbound := hf.wellFormed.bound_eq f.grammar.initial rounds
  -- A bound below the largest count is not cut off.
  omega

/-- A figure that is admitted for every number of rounds up to some visits at most as many symbols in
each word it goes through as the limit allows. -/
theorem work_of_accepted_throughout {f : Figure α} {rounds : Nat} {options : Options α}
    (hf : f.grammar.Built) (hlimit : options.maxSymbols < maxCount)
    (h : ∀ k ≤ rounds, ∃ n, f.checkBudget k options = .ok n) {σ : Type} [WordSource σ] (source : σ) :
    (f.grammar.visits rounds f.grammar.initial source).1.length ≤
      (rounds + 1) * options.maxSymbols := by
  refine Grammar.length_visits_le_mul ?_ source
  intro k hk
  obtain ⟨n, hn⟩ := h k hk
  obtain ⟨hgrowth, hle⟩ := growth_of_accepted hf hlimit hn
  exact hgrowth ▸ hle

/-- Where no word dies out, being admitted for the last round is enough: the words that are gone
through are no longer than the bound. -/
theorem work_of_accepted {f : Figure α} {rounds n : Nat} {options : Options α}
    (hf : f.grammar.Built) (hlasting : f.grammar.Lasting) (hlimit : options.maxSymbols < maxCount)
    (h : f.checkBudget rounds options = .ok n) {σ : Type} [WordSource σ] (source : σ) :
    n ≤ options.maxSymbols ∧
      (f.grammar.visits rounds f.grammar.initial source).1.length ≤ (rounds + 1) * n ∧
      (f.grammar.visits rounds f.grammar.initial source).1.length ≤
        (rounds + 1) * (options.maxSymbols + f.grammar.initial.length) := by
  obtain ⟨hgrowth, hle⟩ := growth_of_accepted hf hlimit h
  have hvisits := hlasting.length_visits_le rounds f.grammar.initial source
  rw [hgrowth] at hvisits
  exact ⟨hle, hvisits, hvisits.trans (Nat.mul_le_mul_left _ (hle.trans (Nat.le_add_right _ _)))⟩

theorem work_of_accepted_stretching :
    let f : Figure Float := { grammar := stretching, setup := .standard, source := .ofSeed 7 }
    f.checkBudget 3 .standard = .ok 8 ∧
      (f.grammar.visits 3 f.grammar.initial f.source).1.length ≤ (3 + 1) * 8 := by
  intro f
  have hbuilt : f.grammar.Built :=
    ⟨.ofSeed 0, [.setInitial "F", .bind 'F' .draw, .addRule 'F' "FF"], rfl⟩
  have hlasting : f.grammar.Lasting := Grammar.lasting_of_rules (by decide)
  have haccepted : f.checkBudget 3 .standard = .ok 8 := by decide +kernel
  exact ⟨haccepted, (work_of_accepted hbuilt hlasting (by decide) haccepted f.source).2.1⟩

/-- A figure whose stem has some buds that all fall off is admitted for two rounds whatever the limit
on its symbols is, and visits all of the buds. -/
theorem checkBudget_withering {f : Figure α} {buds : Nat} (hf : f.grammar = withering buds)
    {options : Options α} (hrounds : 2 ≤ options.maxRounds) {σ : Type} [WordSource σ] (source : σ) :
    f.checkBudget 2 options = .ok 0 ∧
      (f.grammar.visits 2 f.grammar.initial source).1.length = buds + 1 := by
  have hbound := (built_withering buds).wellFormed.bound_eq (withering buds).initial 2
  rw [growth_withering, Nat.zero_min] at hbound
  rw [checkBudget_eq_ok, hf, hbound, visits_withering]
  refine ⟨⟨hrounds, rfl, Nat.zero_le _⟩, ?_⟩
  rw [List.length_cons, List.length_replicate]

-- Eight buds are more than three words of at most one symbol have room for.
theorem exists_accepted_work_gt :
    ∃ (f : Figure Float) (options : Options Float) (rounds n : Nat),
      f.grammar.Built ∧ f.checkBudget rounds options = .ok n ∧
        (rounds + 1) * (options.maxSymbols + f.grammar.initial.length) <
          (f.grammar.visits rounds f.grammar.initial f.source).1.length := by
  let f : Figure Float := { grammar := withering 8, setup := .standard, source := .ofSeed 7 }
  let options : Options Float := { Options.standard with maxSymbols := 0 }
  have hrounds : 2 ≤ options.maxRounds := by decide
  obtain ⟨haccepted, hvisits⟩ := checkBudget_withering (f := f) rfl hrounds f.source
  refine ⟨f, options, 2, 0, built_withering 8, haccepted, ?_⟩
  rw [hvisits]
  decide

end Figure

end LSystem
