import LSystem.Proofs.Figure.Passes
import LSystem.Proofs.Media.Drawing
import LSystem.Proofs.Number.Exact

/-!
# The box of a run

The walk joins the boxes of its parts, the record keeps one trace.  Both give the least box around
the positions that the turtle goes to.
-/

namespace LSystem

variable {α : Type} [Scalar α]

/-! ## The trace of a recording turtle -/

namespace Grammar

variable (g : Grammar)

-- A symbol either leaves the turtle where it is and records nothing, or records where it leads.
theorem trace_step (t : Turtle (Drawing α) α) (s : Symbol) :
    (g.step t s).trace = t.trace ∧ Performer.position (g.step t s) = Performer.position t ∨
      (g.step t s).trace = t.trace ++ [Performer.position (g.step t s)] := by
  unfold step
  cases g.action? s with
  | none => exact Or.inl ⟨rfl, rfl⟩
  | some a =>
    have htrace := t.trace_perform a
    have hposition : (t.perform a).position = (t.pen.reached? a).getD t.position := by
      rw [Turtle.position, t.pen_perform, Pen.position_perform]
      rfl
    cases hreached : t.pen.reached? a with
    | none =>
      rw [hreached] at htrace hposition
      exact Or.inl ⟨htrace.trans (List.append_nil _), hposition⟩
    | some q =>
      rw [hreached] at htrace hposition
      change (t.perform a).position = q at hposition
      refine Or.inr ?_
      show (t.perform a).trace = t.trace ++ [(t.perform a).position]
      rw [hposition]
      exact htrace

theorem around?_trace_carry (w : Word) {t : Turtle (Drawing α) α} {b : Box α}
    (htrace : Box.around? t.trace = some b) (habsorbs : b.grow (Performer.position t) = b) :
    Box.around? (g.carry w t).trace = some ((g.route w t).foldl Box.grow b) := by
  induction w generalizing t b with
  | nil => exact htrace
  | cons s w ih =>
    -- A position that the box has taken in last may come again without being recorded again.
    have hstep : Box.around? (g.step t s).trace =
        some (b.grow (Performer.position (g.step t s))) := by
      rcases g.trace_step t s with ⟨hsame, hstays⟩ | hgoes
      · rw [hsame, hstays, habsorbs, htrace]
      · have hne : t.trace ≠ [] := by
          intro hnil
          rw [hnil] at htrace
          nomatch htrace
        rw [hgoes, Box.around?_concat _ _ hne, htrace]
        rfl
    exact ih hstep (Box.grow_grow_self _ _)

theorem mem_trace_carry_of_mem (w : Word) {t : Turtle (Drawing α) α} {p : Point α}
    (hp : p ∈ t.trace) : p ∈ (g.carry w t).trace := by
  induction w generalizing t with
  | nil => exact hp
  | cons s w ih =>
    rcases g.trace_step t s with ⟨hsame, -⟩ | hgoes
    · exact ih (hsame ▸ hp)
    · exact ih (hgoes ▸ List.mem_append_left _ hp)

theorem mem_trace_carry (w : Word) {t : Turtle (Drawing α) α} (ht : Performer.position t ∈ t.trace)
    {p : Point α} (hp : p ∈ Performer.position t :: g.route w t) : p ∈ (g.carry w t).trace := by
  induction w generalizing t with
  | nil => exact List.mem_singleton.mp hp ▸ ht
  | cons s w ih =>
    have hstep : Performer.position (g.step t s) ∈ (g.step t s).trace := by
      rcases g.trace_step t s with ⟨hsame, hstays⟩ | hgoes
      · rwa [hsame, hstays]
      · rw [hgoes]
        exact List.mem_append_right _ (List.mem_singleton.mpr rfl)
    rcases List.mem_cons.mp hp with rfl | hroute
    · exact g.mem_trace_carry_of_mem (s :: w) ht
    · exact ih hstep hroute

end Grammar

/-! ## The least box -/

namespace Figure

/-- The box of a run is the box around its trace. -/
theorem traceBounds?_record {P : α → Prop} (h : WeaklyOrders (α := α) (· < ·) P) (f : Figure α)
    (rounds : Nat) (htrace : ∀ p ∈ (f.record rounds).value.trace, p.Satisfies P) :
    (f.record rounds).value.traceBounds? = (f.record rounds).value.bounds := by
  let t : Turtle (Drawing α) α := f.setup.apply (Turtle.on {})
  have hrecord : (f.record rounds).value.trace.toList =
      (f.grammar.carry (f.leaves rounds) t).trace :=
    congrArg Turtle.trace (f.turtle_pass_eq_carry {} rounds)
  have hbounds := f.grammar.fst_walk h rounds f.grammar.initial t f.source.reset fun p hp ↦
    htrace p (Array.mem_toList_iff.mp (hrecord ▸
      f.grammar.mem_trace_carry (f.leaves rounds) (List.mem_singleton.mpr rfl) hp))
  rw [Drawing.traceBounds?, hrecord,
    f.grammar.around?_trace_carry (f.leaves rounds) (t := t) rfl (Box.grow_single_self _)]
  exact congrArg some hbounds.symm

/-- If the positions of the trace are ordered, as numbers are, the box of a run is the box around the
trace.  It contains the start and every position that an action leads to, as these are all recorded;
each side goes through a recorded position, so that no smaller box contains the trace. -/
theorem bounds_record_least {P : α → Prop} (h : Ordered P) (f : Figure α) (rounds : Nat)
    (htrace : ∀ p ∈ (f.record rounds).value.trace, p.Satisfies P) :
    ∃ b, (f.record rounds).value.bounds = some b ∧ (f.record rounds).value.traceBounds? = some b ∧
      (∀ p ∈ (f.record rounds).value.trace, b.containsPoint p = true) ∧
      f.setup.start ∈ (f.record rounds).value.trace ∧
      (∀ x ∈ f.log ({} : Drawing α) rounds, x.2 ∈ (f.record rounds).value.trace) ∧
      b.TouchedBy (f.record rounds).value.trace.toList ∧
      ∀ c : Box α, (∀ p ∈ (f.record rounds).value.trace, c.containsPoint p = true) →
        c.contains b = true := by
  let g := f.grammar
  let w := f.leaves rounds
  let t : Turtle (Drawing α) α := f.setup.apply (Turtle.on {})
  have hrecord : (f.record rounds).value.trace.toList = (g.carry w t).trace :=
    congrArg Turtle.trace (f.turtle_pass_eq_carry {} rounds)
  have hmem (p : Point α) : p ∈ (f.record rounds).value.trace ↔ p ∈ (g.carry w t).trace := by
    rw [← hrecord, Array.mem_toList_iff]
  have hvisited (p : Point α) (hp : p ∈ f.setup.start :: g.route w t) :
      p ∈ (f.record rounds).value.trace :=
    (hmem p).mpr (g.mem_trace_carry w (List.mem_singleton.mpr rfl) hp)
  -- The walk's box is the box around the route, and so is the box around the trace.
  have hbox : (f.pass ({} : Drawing α) rounds).bounds = Box.hull f.setup.start (g.route w t) :=
    g.fst_walk h.weak rounds g.initial t f.source.reset fun p hp => htrace p (hvisited p hp)
  have haround : Box.around? (g.carry w t).trace = some (Box.hull f.setup.start (g.route w t)) :=
    g.around?_trace_carry w rfl (Box.grow_single_self _)
  cases htraced : (g.carry w t).trace with
  | nil =>
    rw [htraced] at haround
    nomatch haround
  | cons p ps =>
    rw [htraced, Box.around?_cons] at haround
    have hhull : Box.hull p ps = Box.hull f.setup.start (g.route w t) := Option.some.inj haround
    have hordered : ∀ q ∈ p :: ps, q.Satisfies P := by
      intro q hq
      rw [← htraced] at hq
      exact htrace q ((hmem q).mpr hq)
    have hsatisfies : (Box.hull p ps).Satisfies P :=
      Box.satisfies_foldl_grow (Box.satisfies_single (hordered p List.mem_cons_self))
        fun q hq => hordered q (List.mem_cons_of_mem p hq)
    have htouched : (Box.hull p ps).TouchedBy (f.record rounds).value.trace.toList := by
      rw [hrecord, htraced]
      exact Box.touchedBy_hull p ps
    refine ⟨Box.hull p ps, ?_, ?_, ?_, hvisited _ List.mem_cons_self, ?_, htouched, ?_⟩
    · rw [hhull, ← hbox]
      rfl
    · rw [Drawing.traceBounds?, hrecord, htraced, Box.around?_cons]
    · intro q hq
      rw [hmem, htraced] at hq
      exact (Box.holds_hull h.weak hordered hq).containsPoint h hsatisfies (hordered q hq)
    · intro x hx
      rw [log, Grammar.log_eq_carry] at hx
      rcases g.log_carry_subset w _ hx with hnone | hroute
      · nomatch hnone
      · exact hvisited _ (List.mem_cons_of_mem _ hroute)
    · intro c hc
      exact htouched.contains fun q hq => hc q (Array.mem_toList_iff.mp hq)

/-- A corner, and a square in the next round. -/
def corner : Figure ℚ :=
  let line : Symbol := ⟨0, 'F'⟩
  let turn : Symbol := ⟨1, '+'⟩
  { grammar :=
      { alphabet := .extend {} ['F', '+']
        actions := #[some .draw, some .turnLeft]
        rules := #[#[[line, turn, line]], #[]]
        initial := [line] }
    setup := { start := ⟨0, 0⟩, heading := 90, step := 1, angle := 90 }
    source := .ofSeed 7 }

theorem bounds_record_least_corner :
    letI := Scalar.exact ℚ quarterTurn id
    Ordered (fun _ : ℚ => True) ∧
      (∀ p ∈ (corner.record 2).value.trace, p.Satisfies fun _ : ℚ => True) ∧
      ∃ b, (corner.record 2).value.bounds = some b ∧ (corner.record 2).value.traceBounds? = some b ∧
        b.TouchedBy (corner.record 2).value.trace.toList := by
  let := Scalar.exact ℚ quarterTurn id
  have hordered : Ordered fun _ : ℚ => True := ordered_exact quarterTurn id
  have htrace : ∀ p ∈ (corner.record 2).value.trace, p.Satisfies fun _ : ℚ => True :=
    fun _ _ => ⟨trivial, trivial⟩
  rcases bounds_record_least hordered corner 2 htrace with
    ⟨b, hbounds, htraced, -, -, -, htouched, -⟩
  exact ⟨hordered, htrace, b, hbounds, htraced, htouched⟩

end Figure

end LSystem
