import LSystem.Grammar.Walk

/-!
# Expanding a word

The word that a walk carries out in the end, put together beforehand: every symbol with alternatives
is replaced, its replacement is expanded with one round less, and only then is it the next symbol's
turn.  A walk never builds this word; it is what walks are compared with.
-/

namespace LSystem.Grammar

open LSystem.Random (WordSource choose place place_lt)

variable {σ : Type} [WordSource σ]

/-- The alternative of a symbol that a drawn word picks. -/
def pick (g : Grammar) (s : Symbol) (h : 0 < (g.alternatives s).size) (draw : UInt64) : Word :=
  (g.alternatives s)[(⟨place draw _, place_lt draw h⟩ : Fin (g.alternatives s).size)]

/-- Goes through a word from left to right.  A terminal symbol stays and draws nothing; for any
other one a single draw picks an alternative, and the symbol becomes what `inner` makes of it. -/
def expandWith (g : Grammar) (inner : Word → σ → Word × σ) : Word → σ → Word × σ
  | [], source => ([], source)
  | s :: w, source =>
    if h : 0 < (g.alternatives s).size then
      let (draw, source) := WordSource.next source
      let (part, source) := inner (g.pick s h draw) source
      let (rest, source) := expandWith g inner w source
      (part ++ rest, source)
    else
      let (rest, source) := expandWith g inner w source
      (s :: rest, source)

/-- What a word has become after some rounds, and the source after all draws. -/
def expand (g : Grammar) : (rounds : Nat) → Word → σ → Word × σ
  | 0, w, source => (w, source)
  | rounds + 1, w, source => g.expandWith (expand g rounds) w source

/-! ## One replacement -/

theorem rewrite?_of_terminal {g : Grammar} {s : Symbol} (h : ¬ 0 < (g.alternatives s).size)
    (source : σ) : g.rewrite? s source = none := by
  have hempty : (g.alternatives s).isEmpty = true := by
    rw [Array.isEmpty_iff_size_eq_zero]
    omega
  simp only [rewrite?, hempty, if_true]

theorem rewrite?_of_alternatives {g : Grammar} {s : Symbol} (h : 0 < (g.alternatives s).size)
    (source : σ) :
    g.rewrite? s source =
      some (g.pick s h (WordSource.next source).1, (WordSource.next source).2) := by
  have hempty : (g.alternatives s).isEmpty = false := by
    rw [Bool.eq_false_iff, ne_eq, Array.isEmpty_iff_size_eq_zero]
    omega
  have hpick :
      (g.alternatives s).getD (place (WordSource.next source).1 (g.alternatives s).size) [] =
        g.pick s h (WordSource.next source).1 := by
    rw [Array.getD_eq_getD_getElem?, Array.getElem?_eq_getElem (place_lt _ h)]
    rfl
  simp [rewrite?, hempty, choose, hpick]

theorem pick_of_single {g : Grammar} {s : Symbol} {w : Word} (h : g.alternatives s = #[w])
    (hs : 0 < (g.alternatives s).size) (draw : UInt64) : g.pick s hs draw = w := by
  have hmem : g.pick s hs draw ∈ g.alternatives s := Array.getElem_mem _
  rw [h] at hmem
  exact Array.mem_singleton.mp hmem

/-! ## Expanding part by part -/

theorem expand_zero (g : Grammar) (w : Word) (source : σ) : g.expand 0 w source = (w, source) := rfl

-- The first symbol is expanded to its end before the rest of the word.
theorem expand_cons (g : Grammar) (rounds : Nat) (s : Symbol) (w : Word) (source : σ) :
    g.expand rounds (s :: w) source =
      ((g.expand rounds [s] source).1 ++ (g.expand rounds w (g.expand rounds [s] source).2).1,
        (g.expand rounds w (g.expand rounds [s] source).2).2) := by
  cases rounds with
  | zero => rfl
  | succ rounds =>
    by_cases h : 0 < (g.alternatives s).size <;> simp [expand, expandWith, h]

theorem expand_append (g : Grammar) (rounds : Nat) (v w : Word) (source : σ) :
    g.expand rounds (v ++ w) source =
      ((g.expand rounds v source).1 ++ (g.expand rounds w (g.expand rounds v source).2).1,
        (g.expand rounds w (g.expand rounds v source).2).2) := by
  induction v generalizing source with
  | nil => cases rounds <;> rfl
  | cons s v ih =>
    rw [List.cons_append, expand_cons g rounds s (v ++ w), ih, expand_cons g rounds s v]
    simp only [List.append_assoc]

theorem expand_of_terminal {g : Grammar} {s : Symbol} (h : ¬ 0 < (g.alternatives s).size)
    (rounds : Nat) (source : σ) : g.expand rounds [s] source = ([s], source) := by
  cases rounds with
  | zero => rfl
  | succ rounds => simp [expand, expandWith, h]

theorem expand_of_alternatives {g : Grammar} {s : Symbol} (h : 0 < (g.alternatives s).size)
    (rounds : Nat) (source : σ) :
    g.expand (rounds + 1) [s] source =
      g.expand rounds (g.pick s h (WordSource.next source).1) (WordSource.next source).2 := by
  simp [expand, expandWith, h]

end LSystem.Grammar
