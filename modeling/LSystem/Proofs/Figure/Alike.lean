import LSystem.Figure.Render
import LSystem.Proofs.Walk.Renaming

/-!
# Figures that look alike

Everything that a figure is asked for comes from its bound and from passes over it.  So figures with
the same bounds and the same passes are answered for and rendered alike, whatever their grammars are
made of and wherever their sources stand.
-/

namespace LSystem.Figure

/-- Figures that are answered for alike, and rendered alike on every surface. -/
structure Alike (f f' : Figure Float) : Prop where
  checkBudget : ∀ rounds options, f.checkBudget rounds options = f'.checkBudget rounds options
  dryRun : ∀ rounds, (f.dryRun rounds).toNoted = (f'.dryRun rounds).toNoted
  record : ∀ rounds, (f.record rounds).toNoted = (f'.record rounds).toNoted
  eps : ∀ rounds title options sink,
    (f.eps rounds title options sink).toNoted = (f'.eps rounds title options sink).toNoted
  raster : ∀ rounds options,
    (f.raster rounds options).toNoted = (f'.raster rounds options).toNoted
  json : ∀ rounds options sink,
    (f.json rounds options sink).toNoted = (f'.json rounds options sink).toNoted

theorem alike_of_pass {f f' : Figure Float}
    (hbound : ∀ rounds, f.grammar.bound f.grammar.initial rounds =
      f'.grammar.bound f'.grammar.initial rounds)
    (hpass : ∀ {μ : Type} [Medium μ Float] (medium : μ) (rounds : Nat),
      f.pass medium rounds = f'.pass medium rounds) :
    f.Alike f' := by
  have hbudget (rounds : Nat) (options : Options Float) :
      f.checkBudget rounds options = f'.checkBudget rounds options := by
    unfold checkBudget
    rw [hbound]
  have hdry (rounds : Nat) : (f.dryRun rounds).toNoted = (f'.dryRun rounds).toNoted := by
    unfold dryRun
    rw [hpass]
  have hrecord (rounds : Nat) : (f.record rounds).toNoted = (f'.record rounds).toNoted := by
    unfold record
    rw [hpass]
  refine ⟨hbudget, hdry, hrecord, fun rounds title options sink => ?_, fun rounds options => ?_,
    fun rounds options sink => ?_⟩
  · unfold eps
    rw [hbudget]
    cases f'.checkBudget rounds options with
    | error error => rfl
    | ok n =>
      dsimp only
      rw [hdry]
      cases sink.write _ with
      | mk failure sink => cases failure <;> simp only [hpass]
  · unfold raster
    rw [hbudget]
    dsimp only
    split
    · rfl
    · cases f'.checkBudget rounds options with
      | error error => rfl
      | ok n =>
        dsimp only
        rw [hdry, hpass]
  · unfold json
    rw [hbudget]
    cases f'.checkBudget rounds options with
    | error error => rfl
    | ok n =>
      dsimp only
      rw [hrecord]

/-- Figures are alike if one grammar does what the other does, symbol by symbol, and the setups and
the seeds are the same. -/
theorem alike_of_translates {f f' : Figure Float} {φ : Symbol → Symbol}
    (hφ : Grammar.Translates f.grammar f'.grammar φ) (hg : f.grammar.WellFormed)
    (hg' : f'.grammar.WellFormed) (hinitial : f'.grammar.initial = f.grammar.initial.map φ)
    (hsetup : f'.setup = f.setup) (hseed : f'.source.seed = f.source.seed) : f.Alike f' := by
  refine alike_of_pass (fun rounds => ?_) fun medium rounds => ?_
  · rw [hinitial, hφ.bound hg hg' hg.knows_initial]
  · -- A pass winds the source back, so it starts from the seed.
    rw [pass, pass, Random.Source.reset, Random.Source.reset, hinitial, hsetup, hseed,
      hφ.walk hg rounds hg.knows_initial]

end LSystem.Figure
