import LSystem.Proofs.Figure.Bounds
import LSystem.Proofs.Figure.Pages

/-! What a recording turtle draws starts and ends on its trace. -/

namespace LSystem

variable {α : Type} [Scalar α]

/-- The turtle stands on its trace, and all that it has drawn starts and ends there. -/
structure Turtle.Traced (t : Turtle (Drawing α) α) : Prop where
  position : t.pen.position ∈ t.trace
  ends : ∀ s ∈ t.medium.segments.toList, s.source ∈ t.trace ∧ s.target ∈ t.trace

theorem Turtle.Traced.perform {t : Turtle (Drawing α) α} (h : t.Traced) (a : Action) :
    (t.perform a).Traced := by
  have htrace := t.trace_perform a
  have hsegments := t.segments_perform a
  have hkept {p : Point α} (hp : p ∈ t.trace) : p ∈ (t.perform a).trace :=
    htrace ▸ List.mem_append_left _ hp
  constructor
  · rw [t.pen_perform, Pen.position_perform]
    cases hreached : t.pen.reached? a with
    | none => exact hkept h.position
    | some p =>
      rw [htrace, hreached]
      exact List.mem_append_right _ (List.mem_singleton.mpr rfl)
  · intro s hs
    rw [hsegments, List.mem_append] at hs
    rcases hs with hbefore | hnow
    · exact ⟨hkept (h.ends s hbefore).1, hkept (h.ends s hbefore).2⟩
    · cases a with
      | draw =>
        obtain rfl := List.mem_singleton.mp hnow
        refine ⟨hkept h.position, ?_⟩
        rw [htrace]
        exact List.mem_append_right _ (List.mem_singleton.mpr rfl)
      | _ => nomatch hnow

theorem Turtle.Traced.carry {t : Turtle (Drawing α) α} (h : t.Traced) (g : Grammar) (w : Word) :
    (g.carry w t).Traced := by
  rw [Grammar.carry_eq_foldl_calls]
  induction g.calls w generalizing t with
  | nil => exact h
  | cons a as ih => exact ih (h.perform a)

theorem Figure.ends_mem_trace_record (f : Figure α) (rounds : Nat) {s : Segment α}
    (hs : s ∈ (f.record rounds).value.segments) :
    s.source ∈ (f.record rounds).value.trace ∧ s.target ∈ (f.record rounds).value.trace := by
  let t : Turtle (Drawing α) α := f.setup.apply (Turtle.on {})
  have ht : t.Traced := ⟨List.mem_singleton.mpr rfl, fun _ hs ↦ nomatch hs⟩
  have hpass : (f.pass ({} : Drawing α) rounds).turtle.Traced := by
    rw [f.turtle_pass_eq_carry]
    exact ht.carry f.grammar (f.leaves rounds)
  have hends := hpass.ends s (Array.mem_toList_iff.mpr hs)
  exact ⟨Array.mem_toList_iff.mp hends.1, Array.mem_toList_iff.mp hends.2⟩

end LSystem
