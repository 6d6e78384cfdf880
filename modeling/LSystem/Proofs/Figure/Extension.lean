import LSystem.Proofs.Figure.Bounds
import LSystem.Proofs.Figure.Pages
import LSystem.Proofs.Walk.Language

/-!
# Drawings that are continued

A symbol that is replaced by itself and something more stays in front of all that it becomes.  If a
grammar leaves no choice, a walk of such a symbol with more rounds does at first what one with fewer
rounds does, and then goes on (`walk_extends`).
-/

namespace LSystem

namespace Box

variable {α : Type} [Scalar α] {P : α → Prop}

theorem hull_contains_hull (h : Ordered P) {p : Point α} {ps qs : List (Point α)} (hsub : ps ⊆ qs)
    (hqs : ∀ q ∈ p :: qs, q.Satisfies P) : (hull p qs).contains (hull p ps) = true := by
  have hsatisfies : (hull p qs).Satisfies P := by
    apply satisfies_foldl_grow
    · exact satisfies_single (hqs p List.mem_cons_self)
    · exact fun q hq => hqs q (List.mem_cons_of_mem p hq)
  apply (touchedBy_hull p ps).contains
  intro q hq
  have hmem : q ∈ p :: qs := List.cons_subset_cons p hsub hq
  exact (holds_hull h.weak hqs hmem).containsPoint h hsatisfies (hqs q hmem)

end Box

namespace Grammar

open LSystem.Random (Source WordSource)
open LSystem.Figure (corner)

variable {g : Grammar}

/-! ## Words -/

theorem rewriteAll_append (g : Grammar) (v w : Word) :
    g.rewriteAll (v ++ w) = g.rewriteAll v ++ g.rewriteAll w := List.flatMap_append

theorem iterate_rewriteAll_append (g : Grammar) (n : Nat) (v w : Word) :
    g.rewriteAll^[n] (v ++ w) = g.rewriteAll^[n] v ++ g.rewriteAll^[n] w := by
  induction n generalizing v w with
  | zero => rfl
  | succ n ih => simp only [Function.iterate_succ_apply, rewriteAll_append, ih]

theorem rewriteAll_of_single {s : Symbol} {w : Word} (h : g.alternatives s = #[w]) :
    g.rewriteAll [s] = w := by
  simp [rewriteAll, h]

/-- If a symbol comes first in its only alternative, what it has become comes first in whatever it
becomes later. -/
theorem iterate_rewriteAll_prefix {s : Symbol} {w : Word} (h : g.alternatives s = #[s :: w])
    {m n : Nat} (hmn : m ≤ n) : g.rewriteAll^[m] [s] <+: g.rewriteAll^[n] [s] := by
  induction n, hmn using Nat.le_induction with
  | base => exact List.prefix_rfl
  | succ n _ ih =>
    -- The last of the rounds comes first: it puts `s` in front, which has `n` rounds left.
    have hnext : g.rewriteAll^[n + 1] [s] = g.rewriteAll^[n] [s] ++ g.rewriteAll^[n] w := by
      rw [Function.iterate_succ_apply, rewriteAll_of_single h, ← iterate_rewriteAll_append]
      rfl
    rw [hnext]
    exact ih.trans (List.prefix_append _ _)

theorem leaves_prefix {σ : Type} [WordSource σ] (hg : ∀ s, (g.alternatives s).size ≤ 1)
    {s : Symbol} {w : Word} (h : g.alternatives s = #[s :: w]) {m n : Nat} (hmn : m ≤ n)
    (source source' : σ) : g.leaves m [s] source <+: g.leaves n [s] source' := by
  have hleaves (rounds : Nat) (source : σ) :
      g.leaves rounds [s] source = g.rewriteAll^[rounds] [s] :=
    (g.derives_leaves rounds [s] source).eq_iterate hg
  rw [hleaves, hleaves]
  exact iterate_rewriteAll_prefix h hmn

/-! ## Carrying out more of a word -/

section Carry

variable {α τ β : Type} [Performer τ α] {v w : Word}

theorem route_prefix (g : Grammar) (h : v <+: w) (t : τ) : g.route v t <+: g.route w t := by
  obtain ⟨u, rfl⟩ := h
  rw [route_append]
  exact List.prefix_append _ _

/-- What every action only adds to, a longer word adds more to. -/
theorem carry_prefix (g : Grammar) {f : τ → List β} (hf : ∀ t a, f t <+: f (Performer.perform t a))
    (h : v <+: w) (t : τ) : f (g.carry v t) <+: f (g.carry w t) := by
  have hcarry (u : Word) (t : τ) : f t <+: f (g.carry u t) := by
    induction u generalizing t with
    | nil => exact List.prefix_rfl
    | cons s u ih =>
      have hstep : f t <+: f (g.step t s) := by
        unfold step
        cases g.action? s with
        | none => exact List.prefix_rfl
        | some a => exact hf t a
      exact hstep.trans (ih (g.step t s))
  obtain ⟨u, rfl⟩ := h
  rw [carry_append]
  exact hcarry u (g.carry v t)

end Carry

/-! ## Walks with more rounds -/

variable {α σ : Type} [Scalar α] [WordSource σ]

/-- Let no symbol have more than one alternative, and let that of `s` begin with `s`.  A walk of `s`
with more rounds then begins with the actions of one with fewer rounds, whatever either draws.  What
a turtle has recorded after fewer rounds is the beginning of what it records in more, and the box of
more rounds, if the positions on the way are ordered, contains the box of fewer. -/
theorem walk_extends (hg : ∀ s, (g.alternatives s).size ≤ 1) {s : Symbol} {w : Word}
    (hs : g.alternatives s = #[s :: w]) {m n : Nat} (hmn : m ≤ n) (source source' : σ) :
    (∀ {τ : Type} [Performer τ α] (t : τ),
      g.log m [s] t source <+: g.log n [s] t source' ∧
        ∀ P : α → Prop, Ordered P →
          (∀ p ∈ Performer.position t :: g.route (g.leaves n [s] source') t, p.Satisfies P) →
            (g.walk n [s] t source').1.contains (g.walk m [s] t source).1 = true) ∧
      ∀ t : Turtle (Drawing α) α,
        (g.walk m [s] t source).2.1.trace <+: (g.walk n [s] t source').2.1.trace ∧
          (g.walk m [s] t source).2.1.medium.segments.toList <+:
            (g.walk n [s] t source').2.1.medium.segments.toList := by
  have hleaves : (g.expand m [s] source).1 <+: (g.expand n [s] source').1 := by
    rw [← leaves_eq, ← leaves_eq]
    exact leaves_prefix hg hs hmn source source'
  constructor
  · intro τ _ t
    constructor
    · rw [log_eq_carry, log_eq_carry]
      apply g.carry_prefix (f := Logged.log) _ hleaves
      exact fun _ _ => List.prefix_append _ _
    · intro P hP hroute
      rw [leaves_eq] at hroute
      have hprefix := g.route_prefix hleaves t
      have hroute' : ∀ p ∈ Performer.position t :: g.route (g.expand m [s] source).1 t,
          p.Satisfies P :=
        fun p hp => hroute p (List.cons_subset_cons _ hprefix.subset hp)
      rw [fst_walk hP.weak g n [s] t source' hroute, fst_walk hP.weak g m [s] t source hroute']
      exact Box.hull_contains_hull hP hprefix.subset hroute
  · intro t
    rw [snd_walk, snd_walk]
    constructor
    · apply g.carry_prefix _ hleaves
      intro t a
      have htrace : (t.perform a).trace = _ := t.trace_perform a
      exact htrace ▸ List.prefix_append _ _
    · apply g.carry_prefix (f := fun t : Turtle (Drawing α) α => t.medium.segments.toList) _ hleaves
      intro t a
      have hsegments : (t.perform a).medium.segments.toList = _ := t.segments_perform a
      exact hsegments ▸ List.prefix_append _ _

theorem walk_extends_corner :
    letI := Scalar.exact ℚ quarterTurn id
    let line : Symbol := ⟨0, 'F'⟩
    let t : Turtle (Drawing ℚ) ℚ := .on {}
    let source := Source.ofSeed 7
    ((∀ s, (corner.grammar.alternatives s).size ≤ 1) ∧
        corner.grammar.alternatives line = #[[line, ⟨1, '+'⟩, line]] ∧ 2 ≤ 3) ∧
      corner.grammar.log 2 [line] t source <+: corner.grammar.log 3 [line] t source ∧
      (corner.grammar.walk 3 [line] t source).1.contains
        (corner.grammar.walk 2 [line] t source).1 = true ∧
      (corner.grammar.walk 2 [line] t source).2.1.trace <+:
        (corner.grammar.walk 3 [line] t source).2.1.trace := by
  let := Scalar.exact ℚ quarterTurn id
  intro line t source
  have hg : ∀ s, (corner.grammar.alternatives s).size ≤ 1 :=
    size_alternatives_le (by decide)
  have hs : corner.grammar.alternatives line = #[[line, ⟨1, '+'⟩, line]] := by
    decide
  obtain ⟨hwalk, hrecord⟩ := walk_extends (α := ℚ) hg hs (by decide : 2 ≤ 3) source source
  have hbox := (hwalk t).2 _ (ordered_exact quarterTurn id) fun _ _ => ⟨trivial, trivial⟩
  exact ⟨⟨hg, hs, by decide⟩, (hwalk t).1, hbox, (hrecord t).1⟩

end Grammar

end LSystem
