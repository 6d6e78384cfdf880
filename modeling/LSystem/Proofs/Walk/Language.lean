import LSystem.Proofs.Grammar.Store
import LSystem.Proofs.Random.Place
import LSystem.Proofs.Walk.Visits

/-!
# The language of a grammar

One parallel step replaces every symbol of a word at once: a symbol with alternatives by any of them,
each occurrence by its own, and a terminal symbol by itself (`Becomes`).  A walk goes depth first and
finishes one occurrence before it comes to the next, but what it carries out is derived by as many
parallel steps as it has rounds, and whatever is so derived is carried out for some draws.  Both
follow from the same law: a derivation of a word is a derivation of each of its symbols
(`derives_cons_iff`).
-/

namespace LSystem.Grammar

open LSystem.Random (Source WordSource exists_place_eq next_cons)

/-- One parallel step. -/
inductive Becomes (g : Grammar) : Word → Word → Prop where
  | nil : g.Becomes [] []
  | replace {s : Symbol} {part w v : Word} (h : part ∈ g.alternatives s) (rest : g.Becomes w v) :
      g.Becomes (s :: w) (part ++ v)
  | keep {s : Symbol} {w v : Word} (h : g.isTerminal s = true) (rest : g.Becomes w v) :
      g.Becomes (s :: w) (s :: v)

/-- So many parallel steps. -/
inductive Derives (g : Grammar) : Nat → Word → Word → Prop where
  | refl (w : Word) : g.Derives 0 w w
  | step {n : Nat} {w u v : Word} (first : g.Becomes w u) (rest : g.Derives n u v) :
      g.Derives (n + 1) w v

variable {g : Grammar} {σ : Type} [WordSource σ]

theorem isTerminal_iff {s : Symbol} : g.isTerminal s = true ↔ ¬ 0 < (g.alternatives s).size := by
  rw [isTerminal, Array.isEmpty_iff_size_eq_zero]
  omega

/-! ## Steps, part by part -/

theorem becomes_singleton_iff {s : Symbol} {v : Word} :
    g.Becomes [s] v ↔ v ∈ g.alternatives s ∨ g.isTerminal s = true ∧ v = [s] := by
  constructor
  · intro h
    cases h with
    | replace hpart hrest =>
      cases hrest
      exact Or.inl ((List.append_nil _).symm ▸ hpart)
    | keep hs hrest =>
      cases hrest
      exact Or.inr ⟨hs, rfl⟩
  · rintro (hpart | ⟨hs, rfl⟩)
    · exact List.append_nil v ▸ Becomes.replace hpart .nil
    · exact .keep hs .nil

theorem Becomes.append {u v a b : Word} (hu : g.Becomes u a) (hv : g.Becomes v b) :
    g.Becomes (u ++ v) (a ++ b) := by
  induction hu with
  | nil => exact hv
  | replace hpart _ ih => exact List.append_assoc _ _ b ▸ .replace hpart ih
  | keep hs _ ih => exact .keep hs ih

theorem becomes_append_iff {u v w : Word} :
    g.Becomes (u ++ v) w ↔ ∃ a b, w = a ++ b ∧ g.Becomes u a ∧ g.Becomes v b := by
  constructor
  · intro h
    induction u generalizing w with
    | nil => exact ⟨[], w, rfl, .nil, h⟩
    | cons s u ih =>
      cases h with
      | replace hpart hrest =>
        obtain ⟨a, b, rfl, ha, hb⟩ := ih hrest
        exact ⟨_, b, (List.append_assoc _ a b).symm, .replace hpart ha, hb⟩
      | keep hs hrest =>
        obtain ⟨a, b, rfl, ha, hb⟩ := ih hrest
        exact ⟨s :: a, b, rfl, .keep hs ha, hb⟩
  · rintro ⟨a, b, rfl, ha, hb⟩
    exact ha.append hb

theorem derives_succ_iff {n : Nat} {w v : Word} :
    g.Derives (n + 1) w v ↔ ∃ u, g.Becomes w u ∧ g.Derives n u v :=
  ⟨fun | .step first rest => ⟨_, first, rest⟩, fun ⟨_, first, rest⟩ => .step first rest⟩

theorem derives_nil_iff {n : Nat} {v : Word} : g.Derives n [] v ↔ v = [] := by
  induction n with
  | zero => exact ⟨fun | .refl _ => rfl, fun hv => hv ▸ .refl _⟩
  | succ n ih =>
    rw [derives_succ_iff]
    constructor
    · rintro ⟨u, ⟨⟩, rest⟩
      exact ih.mp rest
    · rintro rfl
      exact ⟨[], .nil, ih.mpr rfl⟩

theorem derives_append_iff {n : Nat} {u v w : Word} :
    g.Derives n (u ++ v) w ↔ ∃ a b, w = a ++ b ∧ g.Derives n u a ∧ g.Derives n v b := by
  induction n generalizing u v w with
  | zero =>
    constructor
    · rintro ⟨⟩
      exact ⟨u, v, rfl, .refl u, .refl v⟩
    · rintro ⟨_, _, rfl, ⟨⟩, ⟨⟩⟩
      exact .refl _
  | succ n ih =>
    constructor
    · intro h
      obtain ⟨x, first, rest⟩ := derives_succ_iff.mp h
      obtain ⟨a, b, rfl, ha, hb⟩ := becomes_append_iff.mp first
      obtain ⟨c, d, rfl, hc, hd⟩ := ih.mp rest
      exact ⟨c, d, rfl, .step ha hc, .step hb hd⟩
    · rintro ⟨a, b, rfl, ha, hb⟩
      -- Both parts take their first step at once.
      obtain ⟨c, hc, hca⟩ := derives_succ_iff.mp ha
      obtain ⟨d, hd, hdb⟩ := derives_succ_iff.mp hb
      exact .step (hc.append hd) (ih.mpr ⟨a, b, rfl, hca, hdb⟩)

theorem derives_cons_iff {n : Nat} {s : Symbol} {w v : Word} :
    g.Derives n (s :: w) v ↔ ∃ a b, v = a ++ b ∧ g.Derives n [s] a ∧ g.Derives n w b :=
  derives_append_iff (u := [s])

theorem derives_terminal_iff {n : Nat} {s : Symbol} {v : Word} (h : g.isTerminal s = true) :
    g.Derives n [s] v ↔ v = [s] := by
  have hnone : ∀ w, w ∉ g.alternatives s := by
    intro w hw
    rw [isTerminal, Array.isEmpty_iff] at h
    simp [h] at hw
  induction n with
  | zero => exact ⟨fun | .refl _ => rfl, fun hv => hv ▸ .refl _⟩
  | succ n ih =>
    rw [derives_succ_iff]
    constructor
    · rintro ⟨u, first, rest⟩
      rcases becomes_singleton_iff.mp first with hu | ⟨-, rfl⟩
      · exact absurd hu (hnone u)
      · exact ih.mp rest
    · rintro rfl
      exact ⟨[s], becomes_singleton_iff.mpr (Or.inr ⟨h, rfl⟩), ih.mpr rfl⟩

theorem derives_alternatives_iff {n : Nat} {s : Symbol} {v : Word}
    (h : 0 < (g.alternatives s).size) :
    g.Derives (n + 1) [s] v ↔ ∃ part ∈ g.alternatives s, g.Derives n part v := by
  have hs : ¬ g.isTerminal s = true := fun ht => isTerminal_iff.mp ht h
  simp [derives_succ_iff, becomes_singleton_iff, hs]

/-! ## Walks and derivations -/

/-- Whatever it draws, a walk carries out a word that its own word derives. -/
theorem derives_leaves (g : Grammar) (rounds : Nat) (w : Word) (source : σ) :
    g.Derives rounds w (g.leaves rounds w source) := by
  induction rounds, w, source using visits_induction (σ := σ) (g := g) with
  | zero w source =>
    rw [leaves_zero]
    exact .refl w
  | nil rounds source =>
    rw [leaves, visits_nil]
    exact derives_nil_iff.mpr rfl
  | terminal rounds s source h =>
    exact (derives_terminal_iff (isTerminal_iff.mpr h)).mpr (leaves_of_terminal h _ source)
  | replaced rounds s source h ih =>
    rw [leaves_of_alternatives h]
    exact (derives_alternatives_iff h).mpr ⟨_, Array.getElem_mem _, ih⟩
  | cons rounds s w source ihs ihw =>
    exact derives_cons_iff.mpr ⟨_, _, g.leaves_cons (rounds + 1) s w source, ihs, ihw⟩

/-- A drawn word has 64 bits, so it tells no more alternatives apart than there are such words. -/
def TellsApart (g : Grammar) : Prop := ∀ s, (g.alternatives s).size ≤ Number.twoTo 64

/-- As each alternative takes a request, there are never more in a history that 64 bits can count. -/
theorem tellsApart_run (source : Source) {rs : List Request} (h : rs.length ≤ Number.twoTo 64) :
    (({ source } : Store).run rs).grammar.TellsApart := by
  intro s
  have hrun := ({ source } : Store).size_alternatives_run_le rs s
  have hempty : ((({ source } : Store).grammar).alternatives s).size = 0 := rfl
  omega

theorem size_alternatives_le {k : Nat} (h : ∀ ws ∈ g.rules, ws.size ≤ k) (s : Symbol) :
    (g.alternatives s).size ≤ k := by
  rcases g.alternatives_eq_empty_or_mem s with hempty | hmem
  · rw [hempty]
    exact Nat.zero_le k
  · exact h _ hmem

theorem exists_pick_eq (hg : g.TellsApart) {s : Symbol} (h : 0 < (g.alternatives s).size) {part : Word}
    (hpart : part ∈ g.alternatives s) : ∃ draw, g.pick s h draw = part := by
  obtain ⟨k, hk, rfl⟩ := Array.mem_iff_getElem.mp hpart
  obtain ⟨draw, hdraw⟩ := exists_place_eq (hg s) hk
  exact ⟨draw, by simp only [pick, hdraw, Fin.getElem_fin]⟩

/-- Whatever a word derives is carried out if the right words are drawn, however the draws go on. -/
theorem exists_draws (hg : g.TellsApart) (n : Nat) (w v : Word) (h : g.Derives n w v) :
    ∃ draws : List UInt64, ∀ rest : Stream' UInt64, g.expand n w (draws ++ₛ rest) = (v, rest) := by
  induction n generalizing w v with
  | zero =>
    cases h
    exact ⟨[], fun rest => rfl⟩
  | succ n ih =>
    induction w generalizing v with
    | nil =>
      obtain rfl := derives_nil_iff.mp h
      exact ⟨[], fun rest => rfl⟩
    | cons s w ihw =>
      obtain ⟨a, b, rfl, ha, hb⟩ := derives_cons_iff.mp h
      obtain ⟨later, hlater⟩ := ihw b hb
      by_cases hs : 0 < (g.alternatives s).size
      · obtain ⟨part, hpart, hrest⟩ := (derives_alternatives_iff hs).mp ha
        obtain ⟨draw, rfl⟩ := exists_pick_eq hg hs hpart
        obtain ⟨inner, hinner⟩ := ih _ a hrest
        -- In the order of the walk: for the symbol, for what it becomes, for the rest of the word.
        refine ⟨draw :: (inner ++ later), fun rest => ?_⟩
        rw [expand_cons, expand_of_alternatives hs, Stream'.cons_append_stream, next_cons]
        dsimp only
        rw [Stream'.append_append_stream, hinner, hlater]
      · obtain rfl := (derives_terminal_iff (isTerminal_iff.mpr hs)).mp ha
        refine ⟨later, fun rest => ?_⟩
        rw [expand_cons, expand_of_terminal hs, hlater]

/-! ## Grammars that leave no choice -/

/-- The word with every symbol replaced by its first alternative, if it has one. -/
def rewriteAll (g : Grammar) (w : Word) : Word := w.flatMap fun s => (g.alternatives s).getD 0 [s]

theorem Becomes.eq_rewriteAll (hg : ∀ s, (g.alternatives s).size ≤ 1) {w v : Word}
    (h : g.Becomes w v) : v = g.rewriteAll w := by
  induction h with
  | nil => rfl
  | @replace s part w v hpart _ ih =>
    obtain ⟨k, hk, rfl⟩ := Array.mem_iff_getElem.mp hpart
    obtain rfl : k = 0 := by have hsize := hg s; omega
    rw [rewriteAll, List.flatMap_cons, Array.getD_eq_getD_getElem?, Array.getElem?_eq_getElem hk, ih]
    rfl
  | @keep s w v hs _ ih =>
    rw [isTerminal, Array.isEmpty_iff] at hs
    rw [rewriteAll, List.flatMap_cons, hs, ih]
    rfl

theorem Derives.eq_iterate (hg : ∀ s, (g.alternatives s).size ≤ 1) {n : Nat} {w v : Word}
    (h : g.Derives n w v) : v = g.rewriteAll^[n] w := by
  induction h with
  | refl w => rfl
  | step first _ ih => rw [Function.iterate_succ_apply, ← first.eq_rewriteAll hg, ih]

/-! ## The language -/

/-- The words that walks of `w` carry out are those that `w` derives in as many parallel steps: every
walk carries out such a word and hands it to its performer, and if draws can tell the alternatives
apart, every such word is carried out for some draws.  Without a choice there is only one, which comes
out whatever is drawn. -/
theorem leaves_eq_language (g : Grammar) (n : Nat) (w : Word) :
    (∀ {α τ σ : Type} [Scalar α] [Performer τ α] [WordSource σ] (t : τ) (source : σ),
      (g.walk n w t source).2.1 = g.carry (g.leaves n w source) t ∧
        g.Derives n w (g.leaves n w source)) ∧
      (g.TellsApart →
        Set.range (fun draws : Stream' UInt64 => g.leaves n w draws) = {v | g.Derives n w v}) ∧
      ((∀ s, (g.alternatives s).size ≤ 1) → ∀ {σ : Type} [WordSource σ] (source : σ),
        g.leaves n w source = g.rewriteAll^[n] w) := by
  refine ⟨?_, ?_, ?_⟩
  · intro α τ σ _ _ _ t source
    exact ⟨congrArg Prod.fst (g.walk_eq_leaves n w t source), g.derives_leaves n w source⟩
  · intro hg
    ext v
    constructor
    · rintro ⟨draws, rfl⟩
      exact g.derives_leaves n w draws
    · intro h
      obtain ⟨draws, hdraws⟩ := exists_draws hg n w v h
      refine ⟨draws ++ₛ Stream'.const 0, ?_⟩
      dsimp only
      rw [leaves_eq, hdraws]
  · intro hg σ _ source
    exact (g.derives_leaves n w source).eq_iterate hg

/-- A bud that grows on, ends or falls off. -/
def budding : Grammar :=
  let bud : Symbol := ⟨0, 'B'⟩
  let stem : Symbol := ⟨1, 'S'⟩
  { alphabet := .extend {} ['B', 'S']
    actions := #[none, some .draw]
    rules := #[#[[stem, bud, bud], [stem], []], #[]]
    initial := [bud, stem] }

/-- A line that becomes twice as long. -/
def stretching : Grammar :=
  let line : Symbol := ⟨0, 'F'⟩
  { alphabet := .extend {} ['F']
    actions := #[some .draw]
    rules := #[#[[line, line]]]
    initial := [line] }

theorem leaves_eq_language_budding :
    budding.TellsApart ∧
      (∃ draws : Stream' UInt64,
        budding.leaves 2 budding.initial draws = [⟨1, 'S'⟩, ⟨1, 'S'⟩, ⟨1, 'S'⟩]) ∧
      (∀ s, (stretching.alternatives s).size ≤ 1) ∧
      stretching.leaves 3 stretching.initial (Random.Source.ofSeed 7) =
        List.replicate 8 ⟨0, 'F'⟩ := by
  have happart : budding.TellsApart :=
    size_alternatives_le (by decide)
  have hsingle : ∀ s, (stretching.alternatives s).size ≤ 1 :=
    size_alternatives_le (by decide)
  have hlanguage := leaves_eq_language budding 2 budding.initial
  have hchoice (k : Nat) (part : Word) (h : (budding.alternatives ⟨0, 'B'⟩)[k]? = some part) :
      part ∈ budding.alternatives ⟨0, 'B'⟩ := Array.mem_of_getElem? h
  have hderives : budding.Derives 2 budding.initial [⟨1, 'S'⟩, ⟨1, 'S'⟩, ⟨1, 'S'⟩] := by
    have hfirst : budding.Becomes budding.initial [⟨1, 'S'⟩, ⟨0, 'B'⟩, ⟨0, 'B'⟩, ⟨1, 'S'⟩] :=
      .replace (hchoice 0 _ rfl) (.keep rfl .nil)
    refine .step hfirst (.step ?_ (.refl _))
    exact .keep rfl (.replace (hchoice 1 _ rfl) (.replace (hchoice 2 _ rfl) (.keep rfl .nil)))
  refine ⟨happart, ?_, hsingle, ?_⟩
  · have hmem := (hlanguage.2.1 happart).superset hderives
    exact hmem
  · rw [(leaves_eq_language stretching 3 stretching.initial).2.2 hsingle]
    decide

end LSystem.Grammar
