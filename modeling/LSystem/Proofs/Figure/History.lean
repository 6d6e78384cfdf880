import LSystem.Proofs.Description.Contents
import LSystem.Proofs.Figure.Alike
import LSystem.Proofs.Random.History
import LSystem.Proofs.Walk.Visits

/-!
# Figures that have been used

A figure can be walked on anything, drawn and written any number of times, and every use leaves its
source somewhere else.  All that is left of a use in the end is the seed, if it gave one: a pass winds
the source back before its first draw.  So a figure that has been used is answered for and rendered as
a new one is, made from the same grammar in whichever order, with the same setup and the seed that
was given last (`alike_after_uses`).
-/

namespace LSystem

open LSystem.Random (ChaCha.wordAt Event Source choose pastsAfter sourcesAfter)

namespace Figure

/-- What a figure can be used for. -/
inductive Use : Type 1 where
  /-- A replacement for a symbol, which may be any. -/
  | rewrite (s : Symbol)
  /-- A walk of any word, on anything that performs actions. -/
  | run {τ : Type} [Performer τ Float] (t : τ) (w : Word) (rounds : Nat)
  | dryRun (rounds : Nat)
  | record (rounds : Nat)
  | eps (rounds : Nat) (title : String) (options : Options Float) (sink : Sink)
  | raster (rounds : Nat) (options : Options Float)
  | json (rounds : Nat) (options : Options Float) (sink : Sink)
  | reset
  | setSeed (seed : UInt64)

def Use.seed? : Use → Option UInt64
  | .setSeed seed => some seed
  | _ => none

def rewritten (f : Figure Float) (s : Symbol) : Figure Float :=
  match f.grammar.rewrite? s f.source with
  | some (_, source) => { f with source }
  | none => f

/-- The figure after a use, whatever came of it. -/
def use (f : Figure Float) : Use → Figure Float
  | .rewrite s => f.rewritten s
  | @Use.run _ _ t w rounds => { f with source := (f.grammar.walk rounds w t f.source).2.2 }
  | .dryRun rounds => (f.dryRun rounds).figure
  | .record rounds => (f.record rounds).figure
  | .eps rounds title options sink => (f.eps rounds title options sink).figure
  | .raster rounds options => (f.raster rounds options).figure
  | .json rounds options sink => (f.json rounds options sink).figure
  | .reset => { f with source := f.source.reset }
  | .setSeed seed => f.withSeed seed

def used (f : Figure Float) (uses : List Use) : Figure Float := uses.foldl use f

/-- The seed after some uses. -/
def lastSeed (seed : UInt64) (uses : List Use) : UInt64 :=
  uses.foldl (fun seed u => u.seed?.getD seed) seed

/-! ## What a use leaves -/

/-- Figures that differ in how far their sources are along at most. -/
structure Moved (f f' : Figure Float) : Prop where
  grammar : f'.grammar = f.grammar
  setup : f'.setup = f.setup
  seed : f'.source.seed = f.source.seed

theorem seed_next (s : Source) : s.next.2.seed = s.seed := by
  rw [Source.snd_next]
  rfl

theorem seed_walk {τ : Type} [Performer τ Float] (g : Grammar) (rounds : Nat) (w : Word) (t : τ)
    (source : Source) : (g.walk rounds w t source).2.2.seed = source.seed := by
  rw [g.walk_eq_leaves rounds w t source, g.snd_visits_eq_iterate]
  induction g.replacements rounds w source with
  | zero => rfl
  | succ n ih =>
    rw [Function.iterate_succ_apply']
    exact (seed_next _).trans ih

variable {μ : Type} [Medium μ Float] {f : Figure Float}

theorem moved_pass (f : Figure Float) (medium : μ) (rounds : Nat) :
    f.Moved (f.after (f.pass medium rounds)) :=
  ⟨rfl, rfl, seed_walk f.grammar rounds f.grammar.initial _ f.source.reset⟩

theorem moved_eps (f : Figure Float) (rounds : Nat) (title : String) (options : Options Float)
    (sink : Sink) : f.Moved (f.eps rounds title options sink).figure := by
  unfold eps
  cases f.checkBudget rounds options with
  | error error => exact ⟨rfl, rfl, rfl⟩
  | ok n =>
    dsimp only
    cases sink.write _ with
    | mk failure sink =>
      cases failure with
      | some error => exact f.moved_pass _ rounds
      | none => exact f.moved_pass _ rounds

theorem moved_raster (f : Figure Float) (rounds : Nat) (options : Options Float) :
    f.Moved (f.raster rounds options).figure := by
  unfold raster
  dsimp only
  split
  · exact ⟨rfl, rfl, rfl⟩
  · cases f.checkBudget rounds options with
    | error error => exact ⟨rfl, rfl, rfl⟩
    | ok n => exact f.moved_pass _ rounds

theorem moved_json (f : Figure Float) (rounds : Nat) (options : Options Float) (sink : Sink) :
    f.Moved (f.json rounds options sink).figure := by
  unfold json
  cases f.checkBudget rounds options with
  | error error => exact ⟨rfl, rfl, rfl⟩
  | ok n => exact f.moved_pass _ rounds

theorem moved_rewritten (f : Figure Float) (s : Symbol) : f.Moved (f.rewritten s) := by
  unfold rewritten
  by_cases h : 0 < (f.grammar.alternatives s).size
  · rw [Grammar.rewrite?_of_alternatives h]
    exact ⟨rfl, rfl, seed_next f.source⟩
  · rw [Grammar.rewrite?_of_terminal h]
    exact ⟨rfl, rfl, rfl⟩

/-- A use gives the figure its seed, if it has one, and moves the source along. -/
theorem moved_use (f : Figure Float) (u : Use) :
    (f.withSeed (u.seed?.getD f.source.seed)).Moved (f.use u) := by
  have hkept {f' : Figure Float} (h : f.Moved f') : (f.withSeed f.source.seed).Moved f' :=
    ⟨h.grammar, h.setup, h.seed⟩
  cases u with
  | rewrite s => exact hkept (f.moved_rewritten s)
  | run t w rounds => exact ⟨rfl, rfl, seed_walk f.grammar rounds w t f.source⟩
  | dryRun rounds => exact hkept (f.moved_pass _ rounds)
  | record rounds => exact hkept (f.moved_pass _ rounds)
  | eps rounds title options sink => exact hkept (f.moved_eps rounds title options sink)
  | raster rounds options => exact hkept (f.moved_raster rounds options)
  | json rounds options sink => exact hkept (f.moved_json rounds options sink)
  | reset => exact ⟨rfl, rfl, rfl⟩
  | setSeed seed => exact ⟨rfl, rfl, rfl⟩

theorem moved_used (f : Figure Float) (uses : List Use) :
    (f.withSeed (lastSeed f.source.seed uses)).Moved (f.used uses) := by
  induction uses generalizing f with
  | nil => exact ⟨rfl, rfl, rfl⟩
  | cons u uses ih =>
    obtain ⟨hgrammar, hsetup, hseed⟩ := f.moved_use u
    have hrest := ih (f.use u)
    rw [hseed] at hrest
    exact ⟨hrest.grammar.trans hgrammar, hrest.setup.trans hsetup, hrest.seed⟩

/-! ## What comes after -/

theorem alike_used {fresh : Figure Float} {uses : List Use} (hf : f.grammar.WellFormed)
    (hfresh : fresh.grammar.WellFormed) (hsame : fresh.grammar.SaysAs f.grammar)
    (hsetup : fresh.setup = f.setup) (hseed : fresh.source.seed = lastSeed f.source.seed uses) :
    (f.used uses).Alike fresh := by
  have hmoved := f.moved_used uses
  have hgrammar : (f.used uses).grammar = f.grammar := hmoved.grammar
  obtain ⟨htranslates, hinitial⟩ := hsame.translates hf hfresh
  rw [← hgrammar] at hf htranslates hinitial
  exact alike_of_translates htranslates hf hfresh hinitial (hsetup.trans hmoved.setup.symm)
    (hseed.trans hmoved.seed.symm)

/-- Every seed is that of a signed number of 64 bits. -/
theorem exists_ofInt_eq (seed : UInt64) :
    ∃ n : Int, -Number.twoTo 63 ≤ n ∧ n < Number.twoTo 63 ∧ UInt64.ofInt n = seed := by
  have hlt : seed.toNat < 18446744073709551616 := seed.toNat_lt
  have hhalf : (Number.twoTo 63 : Int) = 9223372036854775808 := by decide
  have hseed (n : Int) (hn : n % 18446744073709551616 = seed.toNat) : UInt64.ofInt n = seed :=
    UInt64.toNat_inj.mp (Int.ofNat.inj ((Description.toNat_ofInt n).trans hn))
  by_cases h : seed.toNat < 9223372036854775808
  · exact ⟨seed.toNat, by omega, by omega, hseed _ (by omega)⟩
  · exact ⟨seed.toNat - 18446744073709551616, by omega, by omega, hseed _ (by omega)⟩

/-- Nothing that a figure has been used for shows in what comes later.  Whatever the uses were and
whatever came of them, the figure is answered for and rendered as a new one that says the same of
characters and has the same setup and the seed that was given last; and as its description is with
that seed, which some signed number always is.  The reason is that the next choice of a source, one of
many that are asked and cloned, is known from the seed that was given last and the number of choices
since: it is the share of the word at that place. -/
theorem alike_after_uses :
    (∀ (f fresh : Figure Float) (uses : List Use), f.grammar.Built → fresh.grammar.Built →
      fresh.grammar.SaysAs f.grammar → fresh.setup = f.setup →
      fresh.source = .ofSeed (lastSeed f.source.seed uses) → (f.used uses).Alike fresh) ∧
    (∀ (d : Description) (given : UInt64) (f : Figure Float), (d.figure given).value = .ok f →
      ∀ (uses : List Use) (n : Int), UInt64.ofInt n = lastSeed f.source.seed uses →
        ∀ given', ∃ loaded, ({ d with seed := some n }.figure given').value = .ok loaded ∧
          (f.used uses).Alike loaded) ∧
    (∀ seed : UInt64, ∃ n : Int,
      -Number.twoTo 63 ≤ n ∧ n < Number.twoTo 63 ∧ UInt64.ofInt n = seed) ∧
    ∀ (events : List Event) (i : Nat) (s : Source), (sourcesAfter events)[i]? = some s →
      ∃ past, (pastsAfter events)[i]? = some past ∧ ∀ n, (choose s n).1 =
        (ChaCha.wordAt (.ofSeed past.seed) past.choices).toNat * n / Number.twoTo 64 := by
  refine ⟨?_, ?_, exists_ofInt_eq, ?_⟩
  · intro f fresh uses hf hfresh hsame hsetup hsource
    exact alike_used hf.wellFormed hfresh.wellFormed hsame hsetup (congrArg Source.seed hsource)
  · intro d given f hload uses n hn given'
    obtain ⟨hgrammar, hsetup, -⟩ := Description.figure_eq_ok_iff.mp hload
    obtain ⟨-, hdescribed, -⟩ := (d.guarded_figure given).ok hload
    have hwell := hdescribed.wellFormed
    refine ⟨f.withSeed (UInt64.ofInt n),
      Description.figure_eq_ok_iff.mpr ⟨hgrammar, hsetup, rfl⟩, ?_⟩
    exact alike_used hwell hwell ⟨fun _ => rfl, fun _ => rfl, rfl⟩ rfl hn
  · intro events i s hs
    rw [Random.sourcesAfter_eq, List.getElem?_map, Option.map_eq_some_iff] at hs
    obtain ⟨past, hpast, rfl⟩ := hs
    exact ⟨past, hpast, past.choose_source⟩

/-- A line that grows or stays, beside a letter that does nothing. -/
def sapling : Figure Float where
  grammar := (({ source := .ofSeed 3 } : Store).run
    [.bind 'F' .draw, .setInitial "FX", .addRule 'F' "F", .addRule 'F' "FF"]).grammar
  setup := .standard
  source := .ofSeed 3

/-- Uses that draw, among them a page that does not fit its sink, and a seed. -/
def prunings : List Use :=
  [.rewrite ⟨0, 'F'⟩, .eps 2 "line" .standard { room := some 3 }, .setSeed 5,
    .run (Turtle.on ⟨⟩ : Turtle Silent Float) [⟨0, 'F'⟩] 3, .dryRun 1]

theorem alike_after_uses_sapling :
    lastSeed sapling.source.seed prunings = 5 ∧
      (sapling.used prunings).Alike (sapling.withSeed 5) ∧
      (∃ f loaded, (Description.overlapping.figure 0).value = .ok f ∧
        ({ Description.overlapping with seed := some 5 }.figure 0).value = .ok loaded ∧
        (f.used prunings).Alike loaded) ∧
      ∃ s, (sourcesAfter [.make 7, .ask 0 (.choose 3), .clone 0, .ask 1 .reset,
          .ask 0 (.choose 5)])[0]? = some s ∧
        (choose s 10).1 = (ChaCha.wordAt (.ofSeed 7) 2).toNat * 10 / Number.twoTo 64 := by
  obtain ⟨hnew, hloaded, -, hchoice⟩ := alike_after_uses
  have hbuilt : sapling.grammar.Built := ⟨_, _, rfl⟩
  have hload : ∃ f, (Description.overlapping.figure 0).value = .ok f := ⟨_, rfl⟩
  obtain ⟨f, hload⟩ := hload
  obtain ⟨loaded, hloads, halike⟩ := hloaded _ 0 f hload prunings 5 rfl 0
  refine ⟨rfl, ?_, ⟨f, loaded, hload, hloads, halike⟩, ?_⟩
  · exact hnew sapling (sapling.withSeed 5) prunings hbuilt hbuilt ⟨fun _ => rfl, fun _ => rfl, rfl⟩
      rfl rfl
  · obtain ⟨past, hpast, hnext⟩ := hchoice [.make 7, .ask 0 (.choose 3), .clone 0, .ask 1 .reset,
      .ask 0 (.choose 5)] 0 _ rfl
    obtain rfl := Option.some.inj hpast
    exact ⟨_, rfl, hnext 10⟩

end Figure

end LSystem
