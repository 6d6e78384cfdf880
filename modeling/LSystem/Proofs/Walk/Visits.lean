import LSystem.Proofs.Walk.DepthFirst

/-!
# The symbols a walk visits

A walk comes to every symbol of every word it goes through, at all depths, and either replaces the
symbol or carries it out.  The visits of a walk depend on the grammar and on the draws alone; the
symbols that are carried out, in order, are its leaves.  They are all that the performer gets to see
(`walk_eq_leaves`), and every visit that replaces a symbol draws one word (`snd_visits_eq_iterate`).
-/

namespace LSystem.Grammar

open LSystem.Random (WordSource)

/-- What a walk does with a symbol it comes to. -/
inductive Visit where
  | replaced (s : Symbol)
  | carriedOut (s : Symbol)
  deriving DecidableEq, Repr

def Visit.leaf? : Visit → Option Symbol
  | .replaced _ => none
  | .carriedOut s => some s

variable {α τ σ : Type} [WordSource σ]

/-- The visits of a walk, in order: one for every symbol that it comes to at any depth. -/
def visits (g : Grammar) : (rounds : Nat) → Word → σ → List Visit × σ
  | 0, w, source => (w.map .carriedOut, source)
  | rounds + 1, w, source => w.foldl
      (fun (seen, source) s =>
        match g.rewrite? s source with
        | some (replacement, source) =>
          let (inner, source) := visits g rounds replacement source
          (seen ++ .replaced s :: inner, source)
        | none => (seen ++ [.carriedOut s], source))
      ([], source)

/-- The symbols that a walk carries out, in order. -/
def leaves (g : Grammar) (rounds : Nat) (w : Word) (source : σ) : Word :=
  (g.visits rounds w source).1.filterMap Visit.leaf?

/-- The number of visits that replace a symbol. -/
def replacements (g : Grammar) (rounds : Nat) (w : Word) (source : σ) : Nat :=
  (g.visits rounds w source).1.countP fun v => v.leaf?.isNone

/-! ## Visits, symbol by symbol -/

-- The body of the visits, by name.
def visitStep (g : Grammar) (rounds : Nat) : List Visit × σ → Symbol → List Visit × σ
  | (seen, source), s =>
    match g.rewrite? s source with
    | some (replacement, source) =>
      let (inner, source) := g.visits rounds replacement source
      (seen ++ .replaced s :: inner, source)
    | none => (seen ++ [.carriedOut s], source)

theorem visits_zero (g : Grammar) (w : Word) (source : σ) :
    g.visits 0 w source = (w.map .carriedOut, source) := rfl

theorem visits_succ (g : Grammar) (rounds : Nat) (w : Word) (source : σ) :
    g.visits (rounds + 1) w source = w.foldl (g.visitStep rounds) ([], source) := rfl

theorem visits_nil (g : Grammar) (rounds : Nat) (source : σ) :
    g.visits rounds [] source = ([], source) := by
  cases rounds <;> rfl

theorem visits_of_terminal {g : Grammar} {s : Symbol} (h : ¬ 0 < (g.alternatives s).size)
    (rounds : Nat) (source : σ) : g.visits rounds [s] source = ([.carriedOut s], source) := by
  cases rounds with
  | zero => rfl
  | succ rounds =>
    simp only [visits_succ, List.foldl_cons, List.foldl_nil, visitStep, rewrite?_of_terminal h,
      List.nil_append]

theorem visits_of_alternatives {g : Grammar} {s : Symbol} (h : 0 < (g.alternatives s).size)
    (rounds : Nat) (source : σ) :
    g.visits (rounds + 1) [s] source =
      (.replaced s ::
          (g.visits rounds (g.pick s h (WordSource.next source).1) (WordSource.next source).2).1,
        (g.visits rounds (g.pick s h (WordSource.next source).1) (WordSource.next source).2).2) := by
  simp only [visits_succ, List.foldl_cons, List.foldl_nil, visitStep, rewrite?_of_alternatives h,
    List.nil_append]

theorem visits_of_single {g : Grammar} {s : Symbol} {w : Word} (h : g.alternatives s = #[w])
    (rounds : Nat) (source : σ) :
    (g.visits (rounds + 1) [s] source).1 =
      .replaced s :: (g.visits rounds w (WordSource.next source).2).1 := by
  have hs : 0 < (g.alternatives s).size := by
    rw [h]
    exact Nat.one_pos
  rw [visits_of_alternatives hs, pick_of_single h]

private theorem visitStep_eq (g : Grammar) (rounds : Nat) (x : List Visit × σ) (s : Symbol) :
    g.visitStep rounds x s =
      (x.1 ++ (g.visits (rounds + 1) [s] x.2).1, (g.visits (rounds + 1) [s] x.2).2) := by
  rcases x with ⟨seen, source⟩
  simp only [visits_succ, List.foldl_cons, List.foldl_nil, visitStep]
  cases g.rewrite? s source <;> rfl

-- The first symbol is visited with all that it becomes before the rest of the word.
theorem visits_cons (g : Grammar) (rounds : Nat) (s : Symbol) (w : Word) (source : σ) :
    g.visits rounds (s :: w) source =
      ((g.visits rounds [s] source).1 ++ (g.visits rounds w (g.visits rounds [s] source).2).1,
        (g.visits rounds w (g.visits rounds [s] source).2).2) := by
  cases rounds with
  | zero => rfl
  | succ rounds =>
    -- What has been seen so far stays in front and has no influence on the rest.
    have hfold (w : Word) (seen : List Visit) (source : σ) :
        w.foldl (g.visitStep rounds) (seen, source) =
          (seen ++ (w.foldl (g.visitStep rounds) ([], source)).1,
            (w.foldl (g.visitStep rounds) ([], source)).2) := by
      induction w generalizing seen source with
      | nil => simp
      | cons s w ih =>
        rw [List.foldl_cons, List.foldl_cons, visitStep_eq, visitStep_eq, ih (seen ++ _),
          ih ([] ++ _), List.nil_append, List.append_assoc]
    rw [visits_succ, List.foldl_cons, visitStep_eq, hfold, List.nil_append, ← visits_succ]

/-- What holds of all words without rounds, and passes from the replacement of a symbol to the symbol
and from the parts of a word to the word, holds of every walk. -/
theorem visits_induction {g : Grammar}
    {motive : Nat → Word → σ → Prop}
    (zero : ∀ w source, motive 0 w source)
    (nil : ∀ rounds source, motive (rounds + 1) [] source)
    (terminal : ∀ rounds s source, ¬ 0 < (g.alternatives s).size → motive (rounds + 1) [s] source)
    (replaced : ∀ rounds s source (h : 0 < (g.alternatives s).size),
      motive rounds (g.pick s h (WordSource.next source).1) (WordSource.next source).2 →
        motive (rounds + 1) [s] source)
    (cons : ∀ rounds s w source, motive (rounds + 1) [s] source →
      motive (rounds + 1) w (g.visits (rounds + 1) [s] source).2 →
        motive (rounds + 1) (s :: w) source)
    (rounds : Nat) (w : Word) (source : σ) : motive rounds w source := by
  induction rounds generalizing w source with
  | zero => exact zero w source
  | succ rounds ih =>
    induction w generalizing source with
    | nil => exact nil rounds source
    | cons s w ihw =>
      refine cons rounds s w source ?_ (ihw _)
      by_cases h : 0 < (g.alternatives s).size
      · exact replaced rounds s source h (ih _ _)
      · exact terminal rounds s source h

/-! ## The leaves are the expanded word -/

theorem leaves_zero (g : Grammar) (w : Word) (source : σ) : g.leaves 0 w source = w := by
  rw [leaves, visits_zero, List.filterMap_map]
  exact List.filterMap_some

theorem leaves_of_terminal {g : Grammar} {s : Symbol} (h : ¬ 0 < (g.alternatives s).size)
    (rounds : Nat) (source : σ) : g.leaves rounds [s] source = [s] := by
  rw [leaves, visits_of_terminal h]
  rfl

theorem leaves_of_alternatives {g : Grammar} {s : Symbol} (h : 0 < (g.alternatives s).size)
    (rounds : Nat) (source : σ) :
    g.leaves (rounds + 1) [s] source =
      g.leaves rounds (g.pick s h (WordSource.next source).1) (WordSource.next source).2 := by
  rw [leaves, visits_of_alternatives h]
  rfl

theorem leaves_cons (g : Grammar) (rounds : Nat) (s : Symbol) (w : Word) (source : σ) :
    g.leaves rounds (s :: w) source =
      g.leaves rounds [s] source ++ g.leaves rounds w (g.visits rounds [s] source).2 := by
  rw [leaves, visits_cons g rounds s w, List.filterMap_append]
  rfl

theorem leaves_eq_expand (g : Grammar) (rounds : Nat) (w : Word) (source : σ) :
    (g.leaves rounds w source, (g.visits rounds w source).2) = g.expand rounds w source := by
  induction rounds, w, source using visits_induction (σ := σ) (g := g) with
  | zero w source => rw [leaves_zero, visits_zero, expand_zero]
  | nil rounds source => rw [leaves, visits_nil]; rfl
  | terminal rounds s source h => rw [expand_of_terminal h, leaves_of_terminal h, visits_of_terminal h]
  | replaced rounds s source h ih =>
    rw [expand_of_alternatives h, leaves_of_alternatives h, visits_of_alternatives h]
    exact ih
  | cons rounds s w source ihs ihw =>
    rw [expand_cons g (rounds + 1) s w, ← ihs]
    dsimp only
    rw [← ihw, leaves_cons g (rounds + 1) s w, visits_cons g (rounds + 1) s w]

theorem leaves_eq (g : Grammar) (rounds : Nat) (w : Word) (source : σ) :
    g.leaves rounds w source = (g.expand rounds w source).1 :=
  congrArg Prod.fst (g.leaves_eq_expand rounds w source)

/-- A walk carries out its leaves, and draws what its visits draw. -/
theorem walk_eq_leaves [Scalar α] [Performer τ α] (g : Grammar) (rounds : Nat) (w : Word) (t : τ)
    (source : σ) :
    (g.walk rounds w t source).2 =
      (g.carry (g.leaves rounds w source) t, (g.visits rounds w source).2) := by
  rw [snd_walk, ← leaves_eq_expand]

/-- One word is drawn for every symbol that is replaced, and none for any other. -/
theorem snd_visits_eq_iterate (g : Grammar) (rounds : Nat) (w : Word) (source : σ) :
    (g.visits rounds w source).2 =
      (fun s => (WordSource.next s).2)^[g.replacements rounds w source] source := by
  unfold replacements
  induction rounds, w, source using visits_induction (σ := σ) (g := g) with
  | zero w source =>
    have hnone : (w.map Visit.carriedOut).countP (fun v => v.leaf?.isNone) = 0 := by
      simp [List.countP_map, Visit.leaf?]
    rw [visits_zero, hnone]
    rfl
  | nil rounds source => rw [visits_nil]; rfl
  | terminal rounds s source h => rw [visits_of_terminal h]; rfl
  | replaced rounds s source h ih =>
    rw [visits_of_alternatives h]
    dsimp only
    rw [List.countP_cons_of_pos rfl, Function.iterate_succ_apply, ih]
  | cons rounds s w source ihs ihw =>
    rw [visits_cons g (rounds + 1) s w]
    dsimp only
    rw [List.countP_append, Nat.add_comm (List.countP _ _), Function.iterate_add_apply, ← ihs, ihw]

end LSystem.Grammar
