import LSystem.Proofs.Number.Exact
import LSystem.Proofs.Walk.Language
import LSystem.Proofs.Walk.Stops

/-!
# Walks that have settled

A walk that has come to terminal symbols only has settled: further rounds replace nothing and draw
nothing (`walk_settled`).  How deep a walk goes before it settles depends on what it draws, and one
branch may settle long before another.
-/

namespace LSystem.Grammar

open LSystem.Random (Source WordSource)

/-- Whether nothing in a word can be replaced. -/
def IsSettled (g : Grammar) (w : Word) : Prop := ∀ s ∈ w, g.isTerminal s = true

instance (g : Grammar) (w : Word) : Decidable (g.IsSettled w) :=
  inferInstanceAs (Decidable (∀ s ∈ w, g.isTerminal s = true))

variable {g : Grammar} {v w : Word}

theorem isSettled_append : g.IsSettled (v ++ w) ↔ g.IsSettled v ∧ g.IsSettled w :=
  List.forall_mem_append

theorem isSettled_singleton {s : Symbol} :
    g.IsSettled [s] ↔ ¬ 0 < (g.alternatives s).size := by
  rw [IsSettled, List.forall_mem_singleton, isTerminal_iff]

section Expand

variable {σ : Type} [WordSource σ]

theorem expand_of_isSettled (h : g.IsSettled w) (rounds : Nat) (source : σ) :
    g.expand rounds w source = (w, source) := by
  induction w with
  | nil => cases rounds <;> rfl
  | cons s w ih =>
    have hsplit := isSettled_append.mp (List.singleton_append ▸ h : g.IsSettled ([s] ++ w))
    have hs := expand_of_terminal (isSettled_singleton.mp hsplit.1) rounds source
    rw [expand_cons, hs, ih hsplit.2]
    rfl

/-- What a word has become when it has settled is what it stays. -/
theorem expand_add_of_isSettled (m k : Nat) (w : Word) (source : σ)
    (h : g.IsSettled (g.expand m w source).1) :
    g.expand (m + k) w source = g.expand m w source := by
  -- The larger number of rounds goes down with the smaller one, so their distance stays the same.
  induction m generalizing w source with
  | zero =>
    rw [expand_zero] at h ⊢
    exact expand_of_isSettled h _ source
  | succ m ih =>
    rw [show m + 1 + k = m + k + 1 by omega]
    induction w generalizing source with
    | nil => rfl
    | cons s w ihw =>
      rw [expand_cons, isSettled_append] at h
      have hpart : g.expand (m + k + 1) [s] source = g.expand (m + 1) [s] source := by
        by_cases hs : 0 < (g.alternatives s).size
        · have hparts := h.1
          rw [expand_of_alternatives hs] at hparts ⊢
          rw [ih _ _ hparts, expand_of_alternatives hs]
        · rw [expand_of_terminal hs, expand_of_terminal hs]
      rw [expand_cons, hpart, ihw _ h.2, ← expand_cons]

end Expand

variable {α τ σ : Type} [Scalar α] [Performer τ α] [WordSource σ]

/-- Once a walk carries out terminal symbols only, more rounds come to the same walk.  A word of
terminal symbols therefore gives the same walk for any two numbers of rounds. -/
theorem walk_settled (g : Grammar) (w : Word) (t : τ) (source : σ) :
    (∀ m n, m ≤ n → g.IsSettled (g.leaves m w source) → SameWalk g n w g m w t source) ∧
      (g.IsSettled w → ∀ m n, SameWalk g n w g m w t source) := by
  have hsettled (m n : Nat) (hmn : m ≤ n) (h : g.IsSettled (g.leaves m w source)) :
      SameWalk g n w g m w t source := by
    obtain ⟨k, rfl⟩ := Nat.le.dest hmn
    rw [leaves_eq] at h
    have hexpand := expand_add_of_isSettled m k w source h
    apply sameWalk_of_calls
    · rw [hexpand]
    · rw [hexpand]
  refine ⟨hsettled, ?_⟩
  intro h m n
  have hexpand (rounds : Nat) : g.expand rounds w source = (w, source) :=
    expand_of_isSettled h rounds source
  apply sameWalk_of_calls
  · rw [hexpand, hexpand]
  · rw [hexpand, hexpand]

/-- A branch that forks or ends. -/
def forking : Grammar :=
  let tip : Symbol := ⟨0, 'T'⟩
  let line : Symbol := ⟨1, 'F'⟩
  let opening : Symbol := ⟨2, '['⟩
  let closing : Symbol := ⟨3, ']'⟩
  { alphabet := .extend {} ['T', 'F', '[', ']']
    actions := #[none, some .draw, some .push, some .pop]
    rules := #[#[[line, opening, tip, closing, tip], [line], []], #[], #[], #[]]
    initial := [tip, line, tip] }

theorem walk_settled_forking :
    letI := Scalar.exact ℚ quarterTurn id
    let t : Turtle Silent ℚ := .on ⟨⟩
    let source := Source.ofSeed 7
    let lines : Word := [⟨1, 'F'⟩, ⟨1, 'F'⟩]
    (¬ forking.IsSettled (forking.leaves 2 forking.initial source) ∧
        forking.IsSettled (forking.leaves 3 forking.initial source) ∧ forking.IsSettled lines) ∧
      forking.log 9 forking.initial t source = forking.log 3 forking.initial t source ∧
      (forking.walk 9 forking.initial t source).2.2 =
        (forking.walk 3 forking.initial t source).2.2 ∧
      (forking.walk 9 forking.initial t source).1 = (forking.walk 3 forking.initial t source).1 ∧
      (forking.walk 9 lines t source).1 = (forking.walk 0 lines t source).1 := by
  let := Scalar.exact ℚ quarterTurn id
  intro t source lines
  have hordered := (ordered_exact (K := ℚ) quarterTurn id).weak
  have hleaves : forking.IsSettled (forking.leaves 3 forking.initial source) := by
    decide +kernel
  have hlines : forking.IsSettled lines := by
    decide
  have hsame := (walk_settled forking forking.initial t source).1 3 9 (by omega) hleaves
  have hbox := hsame.box _ hordered fun _ _ => ⟨trivial, trivial⟩
  have hsame' := (walk_settled forking lines t source).2 hlines 0 9
  have hbox' := hsame'.box _ hordered fun _ _ => ⟨trivial, trivial⟩
  refine ⟨⟨by decide +kernel, hleaves, hlines⟩, hsame.log, ?_, hbox, hbox'⟩
  rw [hsame.draws]

end LSystem.Grammar
