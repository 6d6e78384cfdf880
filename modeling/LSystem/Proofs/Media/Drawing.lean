import LSystem.Proofs.Turtle.Calls

/-!
# What is recorded

A recording turtle starts anew whenever it is placed.  From then on its trace is one path: each call
that takes the turtle to a position adds it at the end, so the trace ends where the turtle stands, and
a line that is drawn joins the last two positions.  Nothing is remembered from before the turtle was
placed, so it only ever goes back to positions on its trace (`Pen.mem_way_of_mem_stack`).
-/

namespace LSystem

/-- Whether a call is for an action. -/
def Call.isFor {α : Type} (a : Action) : Call α → Bool
  | .perform b => b == a
  | _ => false

variable {α : Type}

namespace Pen

/-- Whether a call takes a pen back to a pose. -/
def goesBack (p : Pen α) : Call α → Bool
  | .perform .pop => !p.stack.isEmpty
  | _ => false

variable [Scalar α]

/-! ## Where a pen is taken -/

/-- Where an action takes a pen, if it goes anywhere. -/
def reached? (p : Pen α) : Action → Option (Point α)
  | .draw => some p.advance.position
  | .move => some p.advance.position
  | .pop => p.restore?.map Pen.position
  | _ => none

theorem position_perform (p : Pen α) (a : Action) :
    (p.perform a).position = (p.reached? a).getD p.position := by
  cases a with
  | pop =>
    show (p.restore?.getD p).position = (p.restore?.map Pen.position).getD p.position
    cases p.restore? <;> rfl
  | _ => rfl

/-- Where a call takes a pen by an action.  A pen that is placed is not taken anywhere. -/
def gone? (p : Pen α) : Call α → Option (Point α)
  | .perform a => p.reached? a
  | _ => none

/-- The positions that a pen is taken to by some calls. -/
def way : Pen α → List (Call α) → List (Point α)
  | _, [] => []
  | p, c :: cs => (p.gone? c).toList ++ (p.call c).way cs

/-- How often a pen is taken back to a pose by some calls. -/
def returns : Pen α → List (Call α) → ℕ
  | _, [] => 0
  | p, c :: cs => (p.goesBack c).toNat + (p.call c).returns cs

/-- Each draw, each move and each way back leads to one position. -/
theorem length_way (p : Pen α) (cs : List (Call α)) :
    (p.way cs).length =
      cs.countP (Call.isFor .draw) + cs.countP (Call.isFor .move) + p.returns cs := by
  induction cs generalizing p with
  | nil => rfl
  | cons c cs ih =>
    have hone : (p.gone? c).toList.length =
        (if c.isFor .draw then 1 else 0) + (if c.isFor .move then 1 else 0) +
          (p.goesBack c).toNat := by
      cases c with
      | perform a =>
        cases a with
        | pop =>
          rcases p with ⟨position, heading, step, angle, stack⟩
          cases stack <;> rfl
        | _ => rfl
      | _ => rfl
    rw [way, List.length_append, hone, ih, returns, List.countP_cons, List.countP_cons]
    omega

theorem length_strokes (p : Pen α) (cs : List (Call α)) :
    (p.strokes cs).length = cs.countP (Call.isFor .draw) := by
  induction cs generalizing p with
  | nil => rfl
  | cons c cs ih =>
    have hone : (p.stroke? c).toList.length = if c.isFor .draw then 1 else 0 := by
      cases c with
      | perform a => cases a <;> rfl
      | _ => rfl
    rw [strokes, List.length_append, hone, ih, List.countP_cons, Nat.add_comm]

/-! ## Without being placed -/

section Unplaced

variable {cs : List (Call α)}

theorem position_call {p : Pen α} {c : Call α} (h : ∀ pose, c ≠ .place pose) :
    (p.call c).position = (p.gone? c).getD p.position := by
  cases c with
  | place pose => exact absurd rfl (h pose)
  | setUnits step angle => rfl
  | perform a => exact p.position_perform a

theorem position_call_mem {p : Pen α} {c : Call α} (h : ∀ pose, c ≠ .place pose) :
    (p.call c).position ∈ p.position :: (p.gone? c).toList := by
  rw [position_call h]
  cases p.gone? c with
  | none => exact List.mem_cons_self
  | some q => exact List.mem_cons_of_mem _ (List.mem_singleton.mpr rfl)

theorem getElem?_way (p : Pen α) (h : ∀ pose, Call.place pose ∉ cs) :
    (p.position :: p.way cs)[(p.way cs).length]? = some (p.calls cs).position := by
  induction cs generalizing p with
  | nil => rfl
  | cons c cs ih =>
    have hc (pose : Pose α) : c ≠ .place pose := fun hc => h pose (hc ▸ List.mem_cons_self)
    have hrest := ih (p.call c) fun pose hpose => h pose (List.mem_cons_of_mem c hpose)
    -- The rest of the way starts at the next position: the same one, or the first entry of the way.
    rw [position_call hc] at hrest
    rw [way]
    cases hgone : p.gone? c with
    | none =>
      rw [hgone] at hrest
      exact hrest
    | some q =>
      rw [hgone] at hrest
      exact hrest

/-- What a pen remembers it has remembered from the start, or it was there on its way. -/
theorem mem_way_of_mem_stack (p : Pen α) (h : ∀ pose, Call.place pose ∉ cs) {pose : Pose α}
    (hpose : pose ∈ (p.calls cs).stack) :
    pose ∈ p.stack ∨ pose.position ∈ p.position :: p.way cs := by
  induction cs generalizing p with
  | nil => exact Or.inl hpose
  | cons c cs ih =>
    have hc (pose : Pose α) : c ≠ .place pose := fun hc => h pose (hc ▸ List.mem_cons_self)
    -- Only remembering adds to the stack, and what it adds is where the pen is.
    have hfirst : pose ∈ (p.call c).stack → pose ∈ p.stack ∨ pose.position = p.position := by
      intro hmem
      cases c with
      | place start => exact absurd rfl (hc start)
      | setUnits step angle => exact Or.inl hmem
      | perform a =>
        cases a with
        | push =>
          rcases List.mem_cons.mp hmem with rfl | hbefore
          · exact Or.inr rfl
          · exact Or.inl hbefore
        | pop =>
          rcases p with ⟨position, heading, step, angle, stack⟩
          cases stack with
          | nil => exact Or.inl hmem
          | cons last stack => exact Or.inl (List.mem_cons_of_mem last hmem)
        | _ => exact Or.inl hmem
    rw [way]
    rcases ih (p.call c) (fun start hstart => h start (List.mem_cons_of_mem c hstart)) hpose with
      hstack | hway
    · rcases hfirst hstack with hbefore | hhere
      · exact Or.inl hbefore
      · exact Or.inr (hhere ▸ List.mem_cons_self)
    · rcases List.mem_cons.mp hway with hhere | hlater
      · have hmem := position_call_mem (p := p) hc
        rw [← hhere] at hmem
        exact Or.inr (List.mem_append_left (p.call c |>.way cs) hmem)
      · exact Or.inr (List.mem_cons_of_mem _ (List.mem_append_right _ hlater))

end Unplaced

end Pen

/-! ## The record of a turtle -/

variable [Scalar α]

namespace Turtle

/-- The positions that have been recorded. -/
def trace (t : Turtle (Drawing α) α) : List (Point α) := t.medium.trace.toList

theorem trace_perform (t : Turtle (Drawing α) α) (a : Action) :
    (t.perform a).trace = t.trace ++ (t.pen.reached? a).toList := by
  unfold trace
  rw [t.medium_perform a]
  cases a with
  | draw => exact Array.toList_push
  | move => exact Array.toList_push
  | pop =>
    show ((t.pen.restore?.map fun restored ↦ Motion.restored restored.position).elim t.medium
      (Medium.mark t.medium)).trace.toList = _ ++ (t.pen.restore?.map Pen.position).toList
    cases t.pen.restore? with
    | none => exact (List.append_nil _).symm
    | some restored => exact Array.toList_push
  | _ => exact (List.append_nil _).symm

theorem segments_perform (t : Turtle (Drawing α) α) (a : Action) :
    (t.perform a).medium.segments.toList =
      t.medium.segments.toList ++ (t.pen.stroke? (.perform a)).toList := by
  rw [t.medium_perform a]
  cases a with
  | draw => exact Array.toList_push
  | pop =>
    show ((t.pen.restore?.map fun restored ↦ Motion.restored restored.position).elim t.medium
      (Medium.mark t.medium)).segments.toList = _
    cases t.pen.restore? <;> exact (List.append_nil _).symm
  | _ => exact (List.append_nil _).symm

/-- A turtle that is not placed adds to its record what its pen goes through and draws. -/
theorem record_calls (t : Turtle (Drawing α) α) {cs : List (Call α)}
    (h : ∀ pose, Call.place pose ∉ cs) :
    (t.calls cs).trace = t.trace ++ t.pen.way cs ∧
      (t.calls cs).medium.segments.toList = t.medium.segments.toList ++ t.pen.strokes cs := by
  induction cs generalizing t with
  | nil => exact ⟨(List.append_nil _).symm, (List.append_nil _).symm⟩
  | cons c cs ih =>
    have hone : (t.call c).trace = t.trace ++ (t.pen.gone? c).toList ∧
        (t.call c).medium.segments.toList =
          t.medium.segments.toList ++ (t.pen.stroke? c).toList := by
      cases c with
      | place pose => exact absurd List.mem_cons_self (h pose)
      | setUnits step angle => exact ⟨(List.append_nil _).symm, (List.append_nil _).symm⟩
      | perform a => exact ⟨t.trace_perform a, t.segments_perform a⟩
    have hrest := ih (t.call c) fun pose hpose => h pose (List.mem_cons_of_mem c hpose)
    rw [hone.1, hone.2, pen_call, List.append_assoc, List.append_assoc] at hrest
    exact hrest

/-! ## After a turtle is placed -/

section Placed

variable (t : Turtle (Drawing α) α) (pose : Pose α) {cs : List (Call α)}

/-- What is recorded after a turtle is placed starts where it is placed. -/
theorem record_placed (h : ∀ later, Call.place later ∉ cs) :
    ((t.place pose).calls cs).trace = pose.position :: (t.pen.place pose).way cs ∧
      ((t.place pose).calls cs).medium.segments.toList = (t.pen.place pose).strokes cs :=
  (t.place pose).record_calls h

theorem getElem?_trace_placed (h : ∀ later, Call.place later ∉ cs) :
    ((t.place pose).calls cs).trace[((t.pen.place pose).way cs).length]? =
      some ((t.place pose).calls cs).position := by
  rw [(t.record_placed pose h).1]
  refine ((t.pen.place pose).getElem?_way h).trans (congrArg some ?_)
  exact congrArg Pen.position ((t.place pose).pen_calls cs).symm

/-- A line that is drawn joins where the turtle stands to where it goes, which are next to each other
in the record. -/
theorem joins_placed {first rest : List (Call α)}
    (h : ∀ later, Call.place later ∉ first ++ .perform .draw :: rest) :
    let p := t.pen.place pose
    let u := (t.place pose).calls (first ++ .perform .draw :: rest)
    let source := ((t.place pose).calls first).position
    let target := ((t.place pose).calls (first ++ [.perform .draw])).position
    u.trace[(p.way first).length]? = some source ∧
      u.trace[(p.way first).length + 1]? = some target ∧
      u.medium.segments.toList[(p.strokes first).length]? = some ⟨source, target⟩ := by
  intro p u source target
  have hfirst (later : Pose α) : Call.place later ∉ first :=
    fun hlater => h later (List.mem_append_left _ hlater)
  have hrest (later : Pose α) : Call.place later ∉ .perform .draw :: rest :=
    fun hlater => h later (List.mem_append_right first hlater)
  let v := (t.place pose).calls first
  have hsource : v.trace[(p.way first).length]? = some source := t.getElem?_trace_placed pose hfirst
  have htarget : v.pen.advance.position = target := by
    change (v.perform .draw).position = _
    exact congrArg position ((t.place pose).calls_append first [.perform .draw]).symm
  obtain ⟨hvtrace, hvsegments⟩ := t.record_placed pose hfirst
  obtain ⟨htrace, hsegments⟩ := v.record_calls hrest
  rw [← calls_append] at htrace hsegments
  have hlength : v.trace.length = (p.way first).length + 1 := congrArg List.length hvtrace
  have hcount : v.medium.segments.toList.length = (p.strokes first).length :=
    congrArg List.length hvsegments
  refine ⟨?_, ?_, ?_⟩
  · rw [htrace, List.getElem?_append_left (by omega), hsource]
  · rw [htrace, ← hlength, List.getElem?_append_right le_rfl, Nat.sub_self, ← htarget]
    rfl
  · rw [hsegments, ← hcount, List.getElem?_append_right le_rfl, Nat.sub_self, ← htarget]
    rfl

/-- All that a placed turtle remembers is where it has been since. -/
theorem restored_mem_trace_placed {first : List (Call α)} (h : ∀ later, Call.place later ∉ first)
    (hstack : ((t.place pose).calls first).pen.stack ≠ []) :
    ((t.place pose).calls (first ++ [.perform .pop])).position ∈
      ((t.place pose).calls first).trace := by
  rw [calls_append]
  change Pen.position (((t.place pose).calls first).perform .pop).pen ∈ _
  rw [pen_perform]
  obtain ⟨last, stack, hlast⟩ := List.exists_cons_of_ne_nil hstack
  have hmem : last ∈ ((t.pen.place pose).calls first).stack := by
    change last ∈ ((t.place pose).pen.calls first).stack
    rw [← pen_calls, hlast]
    exact List.mem_cons_self
  rw [(t.record_placed pose h).1, Pen.perform, Pen.restore?, hlast]
  exact ((t.pen.place pose).mem_way_of_mem_stack h hmem).resolve_left List.not_mem_nil

end Placed

/-- The record is one path.  After a turtle has been placed for the last time, the trace starts where
it was placed and ends where it stands, and has one position more for each draw, each move and each
way back to a pose.  There is one line for each draw; it joins the positions before and after that
draw, which are next to each other on the trace.  Going back leads to a position that is on the trace
already. -/
theorem record_continuous (t : Turtle (Drawing α) α) (before : List (Call α)) (pose : Pose α)
    {cs : List (Call α)} (h : ∀ later, Call.place later ∉ cs) :
    let u (cs : List (Call α)) : Turtle (Drawing α) α := t.calls (before ++ .place pose :: cs)
    let draws (cs : List (Call α)) : ℕ := cs.countP (Call.isFor .draw)
    let goes (cs : List (Call α)) : ℕ :=
      draws cs + cs.countP (Call.isFor .move) + ((t.calls before).pen.place pose).returns cs
    (u cs).trace.head? = some pose.position ∧
      (u cs).trace.getLast? = some (u cs).position ∧
      (u cs).trace.length = 1 + goes cs ∧
      (u cs).medium.segments.size = draws cs ∧
      (∀ first rest, cs = first ++ .perform .draw :: rest →
        let source := (u first).position
        let target := (u (first ++ [.perform .draw])).position
        (u cs).trace[goes first]? = some source ∧ (u cs).trace[goes first + 1]? = some target ∧
          (u cs).medium.segments[draws first]? = some ⟨source, target⟩) ∧
      ∀ first rest, cs = first ++ .perform .pop :: rest → (u first).pen.stack ≠ [] →
        (u (first ++ [.perform .pop])).position ∈ (u first).trace := by
  intro u draws goes
  -- Being placed clears the record and the stack, so of `before` only the units matter.
  let v := t.calls before
  let p := v.pen.place pose
  have hu (cs : List (Call α)) : u cs = (v.place pose).calls cs := t.calls_append before _
  have hgoes (cs : List (Call α)) : goes cs = (p.way cs).length := (p.length_way cs).symm
  have hdraws (cs : List (Call α)) : draws cs = (p.strokes cs).length := (p.length_strokes cs).symm
  obtain ⟨htrace, hsegments⟩ := v.record_placed pose h
  have hlength : (u cs).trace.length = 1 + goes cs := by
    rw [hu, htrace, hgoes, List.length_cons, Nat.add_comm]
  refine ⟨?_, ?_, hlength, ?_, ?_, ?_⟩
  · rw [hu, htrace, List.head?_cons]
  · rw [List.getLast?_eq_getElem?, hlength, Nat.add_sub_cancel_left, hgoes, hu]
    exact v.getElem?_trace_placed pose h
  · rw [hu, hdraws, ← Array.length_toList, hsegments]
  · rintro first rest rfl source target
    rw [hgoes, hdraws, ← Array.getElem?_toList]
    simp only [source, target, hu]
    exact v.joins_placed pose h
  · rintro first rest rfl hstack
    rw [hu] at hstack
    rw [hu, hu]
    exact v.restored_mem_trace_placed pose
      (fun later hlater => h later (List.mem_append_left _ hlater)) hstack

/-- A stem with a branch; at the end there is no pose left to go back to. -/
def branch : List (Call Float) :=
  [.perform .draw, .perform .push, .perform .turnLeft, .perform .draw, .perform .pop, .perform .pop,
    .setUnits 2.0 60.0, .perform .move]

theorem record_continuous_branch :
    let t : Turtle (Drawing Float) Float := Turtle.on {}
    let u := t.calls ([.perform .draw, .perform .push] ++ .place ⟨⟨1.0, 2.0⟩, 90.0⟩ :: branch)
    (∀ later, Call.place later ∉ branch) ∧
      u.trace.head? = some ⟨1.0, 2.0⟩ ∧ u.trace.getLast? = some u.position ∧
      u.trace.length = 5 ∧ u.medium.segments.size = 2 := by
  intro t u
  have h : ∀ later, Call.place later ∉ branch := by
    intro later
    simp [branch]
  obtain ⟨hstart, hlast, hlength, hsegments, -⟩ :=
    t.record_continuous [.perform .draw, .perform .push] ⟨⟨1.0, 2.0⟩, 90.0⟩ h
  exact ⟨h, hstart, hlast, hlength.trans rfl, hsegments.trans rfl⟩

end Turtle

end LSystem
