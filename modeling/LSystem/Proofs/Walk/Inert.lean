import LSystem.Proofs.Number.Exact
import LSystem.Proofs.Walk.Growth
import LSystem.Proofs.Walk.Stops

/-!
# Symbols that do nothing

A symbol with neither an action nor an alternative can be taken out of all words, and no walk shows
it (`walk_pruned`).  No draw is lost with it, as it draws nothing, and no alternative, as one that
becomes empty stays where it is among the others; so the same words pick the same alternatives.
-/

namespace LSystem.Grammar

open LSystem.Random (Source WordSource)

/-- Whether a symbol never does anything. -/
def isInert (g : Grammar) (s : Symbol) : Bool := (g.action? s).isNone && g.isTerminal s

/-- A word without its symbols that never do anything. -/
def prune (g : Grammar) (w : Word) : Word := w.filter fun s => !g.isInert s

/-- The grammar with all its words pruned.  An alternative that becomes empty stays one. -/
def pruned (g : Grammar) : Grammar :=
  { g with
    initial := g.prune g.initial
    rules := g.rules.map (·.map g.prune) }

variable (g : Grammar)

theorem prune_cons_of_inert {s : Symbol} (h : g.isInert s = true) (w : Word) :
    g.prune (s :: w) = g.prune w := by
  simp [prune, h]

theorem prune_cons_of_not_inert {s : Symbol} (h : g.isInert s = false) (w : Word) :
    g.prune (s :: w) = s :: g.prune w := by
  simp [prune, h]

theorem prune_append (v w : Word) : g.prune (v ++ w) = g.prune v ++ g.prune w :=
  List.filter_append v w

theorem not_alternatives_of_inert {s : Symbol} (h : g.isInert s = true) :
    ¬ 0 < (g.alternatives s).size := by
  rw [isInert, Bool.and_eq_true] at h
  exact isTerminal_iff.mp h.2

/-! ## The pruned grammar -/

@[simp] theorem action?_pruned (s : Symbol) : g.pruned.action? s = g.action? s := rfl

@[simp] theorem alternatives_pruned (s : Symbol) :
    g.pruned.alternatives s = (g.alternatives s).map g.prune := by
  simp only [alternatives, pruned, Array.getD_eq_getD_getElem?, Array.getElem?_map]
  cases g.rules[s.id]? <;> simp

theorem size_alternatives_pruned (s : Symbol) :
    (g.pruned.alternatives s).size = (g.alternatives s).size := by
  simp

theorem pick_pruned {s : Symbol} (h : 0 < (g.alternatives s).size)
    (h' : 0 < (g.pruned.alternatives s).size) (draw : UInt64) :
    g.pruned.pick s h' draw = g.prune (g.pick s h draw) := by
  simp only [pick, alternatives_pruned, Array.size_map, Fin.getElem_fin, Array.getElem_map]

/-! ## Walks -/

theorem calls_prune (w : Word) : g.pruned.calls (g.prune w) = g.calls w := by
  induction w with
  | nil => rfl
  | cons s w ih =>
    cases hs : g.isInert s with
    | true =>
      have haction : g.action? s = none := by
        simp only [isInert, Bool.and_eq_true, Option.isNone_iff_eq_none] at hs
        exact hs.1
      rw [prune_cons_of_inert g hs, calls_cons, haction, ih]
      rfl
    | false => rw [prune_cons_of_not_inert g hs, calls_cons, calls_cons, ih, action?_pruned]

/-- Pruned words expand to pruned words, with the same draws. -/
theorem expand_pruned {σ : Type} [WordSource σ] (rounds : Nat) (w : Word) (source : σ) :
    g.pruned.expand rounds (g.prune w) source =
      (g.prune (g.expand rounds w source).1, (g.expand rounds w source).2) := by
  -- On the rounds, as an alternative has one less left, and then on the word.
  induction rounds generalizing w source with
  | zero => rfl
  | succ rounds ih =>
    induction w generalizing source with
    | nil => rfl
    | cons s w ihw =>
      cases hs : g.isInert s with
      | true =>
        rw [prune_cons_of_inert g hs, expand_cons g, ihw,
          expand_of_terminal (g.not_alternatives_of_inert hs), List.singleton_append,
          prune_cons_of_inert g hs]
      | false =>
        have hpart : g.pruned.expand (rounds + 1) [s] source =
            (g.prune (g.expand (rounds + 1) [s] source).1,
              (g.expand (rounds + 1) [s] source).2) := by
          by_cases h : 0 < (g.alternatives s).size
          · have h' : 0 < (g.pruned.alternatives s).size := by
              rwa [size_alternatives_pruned]
            rw [expand_of_alternatives h, expand_of_alternatives h', g.pick_pruned h h', ih]
          · have h' : ¬ 0 < (g.pruned.alternatives s).size := by
              rwa [size_alternatives_pruned]
            rw [expand_of_terminal h, expand_of_terminal h', prune_cons_of_not_inert g hs]
            rfl
        rw [prune_cons_of_not_inert g hs, expand_cons g.pruned, hpart, ihw,
          expand_cons g (rounds + 1) s w, prune_append]

/-! ## The bound -/

/-- Every symbol counts at most as much in one table as in another. -/
def AtMost (table table' : Array Nat) : Prop := ∀ i, table.getD i 1 ≤ table'.getD i 1

variable {table table' : Array Nat}

theorem AtMost.wordCount_prune_le (h : AtMost table table') (w : Word) :
    wordCount table (g.prune w) ≤ wordCount table' w := by
  -- A count that stays behind catches up with nothing, as both stop at the same number.
  have hfold (n n' : Nat) (hn : n ≤ n') (hmax : n ≤ maxCount) :
      (g.prune w).foldl (fun count s => addCount count (table.getD s.id 1)) n ≤
        w.foldl (fun count s => addCount count (table'.getD s.id 1)) n' := by
    induction w generalizing n n' with
    | nil => exact hn
    | cons s w ih =>
      have hs := h s.id
      cases hinert : g.isInert s with
      | true =>
        rw [prune_cons_of_inert g hinert, List.foldl_cons]
        apply ih _ _ _ hmax
        unfold addCount
        omega
      | false =>
        rw [prune_cons_of_not_inert g hinert, List.foldl_cons, List.foldl_cons]
        apply ih
        · unfold addCount
          omega
        · exact Nat.min_le_right _ _
  exact hfold 0 0 (Nat.le_refl 0) (Nat.zero_le maxCount)

theorem AtMost.foldl_max_prune_le (h : AtMost table table') (ws : Array Word) :
    (ws.map g.prune).foldl (fun count w => max count (wordCount table w)) 0 ≤
      ws.foldl (fun count w => max count (wordCount table' w)) 0 := by
  have hfold (ws : List Word) (n n' : Nat) (hn : n ≤ n') :
      (ws.map g.prune).foldl (fun count w => max count (wordCount table w)) n ≤
        ws.foldl (fun count w => max count (wordCount table' w)) n' := by
    induction ws generalizing n n' with
    | nil => exact hn
    | cons w ws ih =>
      have hw := h.wordCount_prune_le g w
      rw [List.map_cons, List.foldl_cons, List.foldl_cons]
      apply ih
      omega
  rw [← Array.foldl_toList, ← Array.foldl_toList, Array.toList_map]
  exact hfold ws.toList 0 0 (Nat.le_refl 0)

theorem AtMost.nextTable_pruned (h : AtMost table table') :
    AtMost (g.pruned.nextTable table) (g.nextTable table') := by
  intro i
  simp only [nextTable, Array.getD_eq_getD_getElem?, List.getElem?_toArray, List.getElem?_map]
  show (Option.map _ g.symbols[i]?).getD 1 ≤ _
  cases g.symbols[i]? with
  | none => exact Nat.le_refl 1
  | some s =>
    have hmax := h.foldl_max_prune_le g (g.alternatives s)
    have hempty : ((g.alternatives s).map g.prune).isEmpty = (g.alternatives s).isEmpty := by
      simp only [Array.isEmpty, Array.size_map]
    simp only [Option.map_some, Option.getD_some, alternatives_pruned, hempty]
    cases (g.alternatives s).isEmpty with
    | true => exact Nat.le_refl 1
    | false => exact hmax

/-- Pruning makes no bound larger. -/
theorem bound_pruned_le (w : Word) (rounds : Nat) :
    g.pruned.bound (g.prune w) rounds ≤ g.bound w rounds := by
  have htable (ones : Array Nat) :
      AtMost (g.pruned.tableAfter rounds ones) (g.tableAfter rounds ones) := by
    rw [tableAfter_eq_iterate, tableAfter_eq_iterate]
    induction rounds with
    | zero => exact fun i => Nat.le_refl _
    | succ rounds ih =>
      rw [Function.iterate_succ_apply', Function.iterate_succ_apply']
      exact ih.nextTable_pruned g
  exact (htable _).wordCount_prune_le g w

/-! ## Nothing shows -/

variable {α τ σ : Type} [Scalar α] [Performer τ α] [WordSource σ]

/-- Symbols that do nothing are invisible.  If they are taken out of a word, of the initial word and
of every alternative, then the word is walked as before: with the same actions at the same positions,
to the same performer and the same source and, where positions are ordered, with the same box.  The
bound on what a walk carries out gets no larger. -/
theorem walk_pruned (rounds : Nat) (w : Word) (t : τ) (source : σ) :
    SameWalk g rounds w g.pruned rounds (g.prune w) t source ∧
      g.pruned.bound (g.prune w) rounds ≤ g.bound w rounds := by
  have hexpand := g.expand_pruned rounds w source
  refine ⟨sameWalk_of_calls t ?_ ?_, g.bound_pruned_le w rounds⟩
  · rw [hexpand, calls_prune]
  · rw [hexpand]

/-- A stem that grows, stops growing or leaves nothing, with a leaf beside it that does nothing. -/
def overgrown : Grammar :=
  let stem : Symbol := ⟨0, 'S'⟩
  let line : Symbol := ⟨1, 'F'⟩
  let leaf : Symbol := ⟨2, 'L'⟩
  { alphabet := .extend {} ['S', 'F', 'L']
    actions := #[none, some .draw, none]
    rules := #[#[[leaf, line, stem, leaf, stem], [line], [leaf, leaf]], #[], #[]]
    initial := [leaf, stem, leaf] }

theorem walk_pruned_overgrown :
    letI := Scalar.exact ℚ quarterTurn id
    let t : Turtle Silent ℚ := .on ⟨⟩
    let source := Source.ofSeed 7
    overgrown.prune overgrown.initial = [⟨0, 'S'⟩] ∧
      overgrown.pruned.alternatives ⟨0, 'S'⟩ =
        #[[⟨1, 'F'⟩, ⟨0, 'S'⟩, ⟨0, 'S'⟩], [⟨1, 'F'⟩], []] ∧
      (overgrown.walk 4 overgrown.initial t source).1 =
        (overgrown.pruned.walk 4 (overgrown.prune overgrown.initial) t source).1 ∧
      overgrown.pruned.bound (overgrown.prune overgrown.initial) 4 ≤
        overgrown.bound overgrown.initial 4 := by
  let := Scalar.exact ℚ quarterTurn id
  intro t source
  obtain ⟨hsame, hbound⟩ := walk_pruned overgrown 4 overgrown.initial t source
  have hbox := hsame.box _ (ordered_exact quarterTurn id).weak fun _ _ => ⟨trivial, trivial⟩
  exact ⟨by decide, by decide +kernel, hbox, hbound⟩

end LSystem.Grammar
