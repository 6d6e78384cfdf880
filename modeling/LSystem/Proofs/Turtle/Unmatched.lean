import LSystem.Proofs.Turtle.Motion
import Mathlib.Order.Bounds.Basic

/-!
# Going back without a pose

A turtle that remembers no pose and is told to go back stays as it is, and where it stands is noted.
How often that happens can be read off the actions alone: it is the most by which any beginning of
them goes back more often than it remembers, less the poses that were there at first
(`Pen.length_ignored`).  When these actions are left out, all else comes to the same on every medium
(`Turtle.foldl_heeded`).
-/

namespace LSystem

/-! ## Going back more often than remembering -/

namespace Action

/-- By how much some actions go back more often than they remember. -/
def excess (as : List Action) : ℤ := as.count .pop - as.count .push

/-- The most by which a beginning of some actions goes back more often than it remembers. -/
def shortfall : List Action → ℕ
  | [] => 0
  | .pop :: as => shortfall as + 1
  | .push :: as => shortfall as - 1
  | _ :: as => shortfall as

theorem excess_cons (a : Action) (as : List Action) :
    excess (a :: as) = excess [a] + excess as := by
  simp only [excess, List.count_cons, List.count_nil]
  omega

theorem excess_pop : excess [.pop] = 1 := rfl

theorem excess_push : excess [.push] = -1 := rfl

-- The zero is the empty beginning: poses that are remembered later make up for nothing.
theorem shortfall_cons (a : Action) (as : List Action) :
    (shortfall (a :: as) : ℤ) = max 0 (excess [a] + shortfall as) := by
  cases a with
  | pop =>
    rw [shortfall, excess_pop]
    omega
  | push =>
    rw [shortfall, excess_push]
    omega
  | _ =>
    have hzero : max (0 : ℤ) (0 + shortfall as) = shortfall as := by omega
    exact hzero.symm

theorem isGreatest_shortfall (as : List Action) :
    IsGreatest {n : ℤ | ∃ first, first <+: as ∧ excess first = n} (shortfall as) := by
  induction as with
  | nil =>
    refine ⟨⟨[], List.prefix_rfl, rfl⟩, ?_⟩
    rintro n ⟨first, hfirst, rfl⟩
    rw [List.prefix_nil.mp hfirst]
    exact le_rfl
  | cons a as ih =>
    obtain ⟨⟨most, hmost, hreached⟩, hupper⟩ := ih
    have hcons := shortfall_cons a as
    constructor
    · -- Either nothing beats the empty beginning, or the best beginning of the rest goes on from `a`.
      by_cases hrest : 0 ≤ excess [a] + shortfall as
      · refine ⟨a :: most, List.cons_prefix_cons.mpr ⟨rfl, hmost⟩, ?_⟩
        rw [hcons, excess_cons, hreached]
        omega
      · refine ⟨[], List.nil_prefix, ?_⟩
        change 0 = _
        omega
    · rintro n ⟨first, hfirst, rfl⟩
      rcases List.prefix_cons_iff.mp hfirst with rfl | ⟨rest, rfl, hrest⟩
      · change 0 ≤ _
        omega
      · have hle : excess rest ≤ shortfall as := hupper ⟨rest, hrest, rfl⟩
        rw [hcons, excess_cons]
        omega

example : shortfall [.push, .pop, .pop, .pop, .push] = 2 := by decide

end Action

/-! ## What a pen ignores -/

variable {α : Type}

/-- Whether a pen is told to go back and remembers no pose. -/
def Pen.ignores (p : Pen α) : Action → Bool
  | .pop => p.stack.isEmpty
  | _ => false

theorem Pen.ignores_iff {p : Pen α} {a : Action} :
    p.ignores a = true ↔ a = .pop ∧ p.stack = [] := by
  cases a <;> simp [ignores]

variable [Scalar α]

namespace Pen

/-- Where a pen stands whenever it ignores one of some actions. -/
def ignored : Pen α → List Action → List (Point α)
  | _, [] => []
  | p, a :: as => if p.ignores a then p.position :: p.ignored as else (p.perform a).ignored as

/-- The actions that are left when those that a pen ignores are taken out. -/
def heeded : Pen α → List Action → List Action
  | _, [] => []
  | p, a :: as => if p.ignores a then p.heeded as else a :: (p.perform a).heeded as

theorem perform_of_ignores {p : Pen α} {a : Action} (h : p.ignores a = true) : p.perform a = p := by
  obtain ⟨rfl, hstack⟩ := ignores_iff.mp h
  rw [perform, restore?, hstack]
  rfl

/-- The depth of the stack after an action that is not ignored. -/
theorem length_stack_perform {p : Pen α} {a : Action} (h : p.ignores a = false) :
    ((p.perform a).stack.length : ℤ) = p.stack.length - Action.excess [a] := by
  cases a with
  | pop =>
    rcases p with ⟨position, heading, step, angle, stack⟩
    cases stack with
    | nil => nomatch h
    | cons pose stack =>
      show (stack.length : ℤ) = (pose :: stack).length - Action.excess [.pop]
      rw [Action.excess_pop, List.length_cons]
      omega
  | push =>
    show ((p.pose :: p.stack).length : ℤ) = p.stack.length - Action.excess [.push]
    rw [Action.excess_push, List.length_cons]
    omega
  | _ => exact (Int.sub_zero _).symm

-- Each pose that is there at first makes up for one that is missing later.
theorem length_ignored (p : Pen α) (as : List Action) :
    (p.ignored as).length = Action.shortfall as - p.stack.length := by
  induction as generalizing p with
  | nil => exact (Nat.zero_sub _).symm
  | cons a as ih =>
    rw [ignored]
    split
    · rename_i h
      obtain ⟨rfl, hstack⟩ := ignores_iff.mp h
      rw [List.length_cons, ih, hstack, Action.shortfall]
      rfl
    · rename_i h
      have hdepth := length_stack_perform (eq_false_of_ne_true h)
      have hcons := Action.shortfall_cons a as
      rw [ih]
      omega

theorem length_heeded (p : Pen α) (as : List Action) :
    (p.heeded as).length + (p.ignored as).length = as.length := by
  induction as generalizing p with
  | nil => rfl
  | cons a as ih =>
    have hsame := ih p
    have hnext := ih (p.perform a)
    rw [heeded, ignored]
    split <;> simp only [List.length_cons] <;> omega

/-- What goes back in vain takes nothing from the stack. -/
theorem length_stack_foldl (p : Pen α) (as : List Action) :
    ((as.foldl perform p).stack.length : ℤ) =
      p.stack.length - Action.excess as + (p.ignored as).length := by
  induction as generalizing p with
  | nil => simp [Action.excess, ignored]
  | cons a as ih =>
    rw [List.foldl_cons, ih, ignored, Action.excess_cons]
    split
    · rename_i h
      rw [perform_of_ignores h]
      obtain ⟨rfl, -⟩ := ignores_iff.mp h
      rw [Action.excess_pop, List.length_cons]
      omega
    · rename_i h
      rw [length_stack_perform (eq_false_of_ne_true h)]
      omega

end Pen

/-! ## Leaving out what is ignored -/

namespace Turtle

variable {μ : Type} [Medium μ α]

theorem pen_foldl_perform (t : Turtle μ α) (as : List Action) :
    (as.foldl perform t).pen = as.foldl Pen.perform t.pen :=
  (List.foldl_hom pen fun t a => (t.pen_perform a).symm).symm

theorem unmatched_perform (t : Turtle μ α) (a : Action) :
    (t.perform a).unmatched =
      if t.pen.ignores a then t.unmatched.push t.position else t.unmatched := by
  cases a with
  | pop =>
    rcases t with ⟨⟨position, heading, step, angle, stack⟩, medium, unmatched⟩
    cases stack <;> rfl
  | _ => rfl

/-- Where an action is ignored is all that comes of it. -/
theorem perform_of_ignores {t : Turtle μ α} {a : Action} (h : t.pen.ignores a = true) :
    t.perform a = { t with unmatched := t.unmatched.push t.position } := by
  obtain ⟨rfl, hstack⟩ := Pen.ignores_iff.mp h
  show t.pop = _
  simp only [pop, Pen.restore?, hstack]
  rfl

/-- One note is left for each action that is ignored, with the place where it was. -/
theorem unmatched_foldl (t : Turtle μ α) (as : List Action) :
    (as.foldl perform t).unmatched = t.unmatched ++ t.pen.ignored as := by
  induction as generalizing t with
  | nil => simp [Pen.ignored]
  | cons a as ih =>
    rw [List.foldl_cons, ih, unmatched_perform, pen_perform, Pen.ignored]
    split
    · rename_i h
      rw [Pen.perform_of_ignores h]
      simp [position]
    · rfl

/-- Turtles that differ in their notes only go on alike, also if one of them is spared what it would
ignore; that one has nothing more to note. -/
theorem foldl_heeded {t u : Turtle μ α} (hpen : u.pen = t.pen) (hmedium : u.medium = t.medium)
    (as : List Action) :
    let v := (t.pen.heeded as).foldl perform u
    v.pen = (as.foldl perform t).pen ∧ v.medium = (as.foldl perform t).medium ∧
      v.unmatched = u.unmatched := by
  -- The notes have no say in what comes next, so the turtles may already differ in them.
  induction as generalizing t u with
  | nil => exact ⟨hpen, hmedium, rfl⟩
  | cons a as ih =>
    rw [Pen.heeded, List.foldl_cons]
    split
    · rename_i h
      rw [perform_of_ignores h]
      exact ih (t := { t with unmatched := t.unmatched.push t.position }) hpen hmedium
    · rename_i h
      have hunmatched : (u.perform a).unmatched = u.unmatched := by
        rw [unmatched_perform, hpen, if_neg h]
      have hrest := ih (t := t.perform a) (u := u.perform a)
        (by rw [pen_perform, pen_perform, hpen])
        (by rw [medium_perform, medium_perform, hpen, hmedium])
      rw [pen_perform, hunmatched] at hrest
      exact hrest

/-- Going back without a pose is counted exactly and leaves no trace.  Of some actions a turtle
ignores as many as the most by which a beginning of them goes back more often than it remembers,
less the poses that it remembers at first, and notes for each where it stands.  The stack is in the
end as deep as it was, with what was remembered more and what went back less, but for what was
ignored.  Without the ignored actions, the pen ends in the same state and the medium, whatever it is,
bears the same, and nothing is ignored. -/
theorem ignored_counted_without_trace (t : Turtle μ α) (as : List Action) :
    let ignored := t.pen.ignored as
    let u := as.foldl perform t
    let v := (t.pen.heeded as).foldl perform t
    (∃ m : ℕ,
      IsGreatest {n : ℤ | ∃ first, first <+: as ∧ (first.count .pop : ℤ) - first.count .push = n} m ∧
        ignored.length = m - t.pen.stack.length) ∧
      u.unmatched = t.unmatched ++ ignored ∧
      (u.pen.stack.length : ℤ) =
        t.pen.stack.length + as.count .push - as.count .pop + ignored.length ∧
      (t.pen.heeded as).length + ignored.length = as.length ∧
      v.pen = u.pen ∧ v.medium = u.medium ∧ v.unmatched = t.unmatched := by
  intro ignored u v
  have hdepth : (u.pen.stack.length : ℤ) =
      t.pen.stack.length - Action.excess as + ignored.length := by
    rw [pen_foldl_perform]
    exact t.pen.length_stack_foldl as
  refine ⟨⟨Action.shortfall as, Action.isGreatest_shortfall as, t.pen.length_ignored as⟩,
    t.unmatched_foldl as, ?_, t.pen.length_heeded as, foldl_heeded rfl rfl as⟩
  rw [hdepth, Action.excess]
  omega

end Turtle

end LSystem
