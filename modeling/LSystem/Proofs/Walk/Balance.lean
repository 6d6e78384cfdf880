import LSystem.Proofs.Turtle.Motion
import LSystem.Proofs.Walk.DepthFirst

/-!
# Balanced words

A symbol that remembers a pose opens a branch, and one that goes back closes it.  Where a grammar
keeps these symbols and puts balanced words in place of all others, balanced words stay balanced.  So
a walk of such a word goes back to every pose that it remembers, and to no other
(`walk_balanced_restores`).
-/

namespace LSystem

open LSystem.Random (WordSource)

/-! ## Counting what is open -/

/-- How many branches are open after an action, if there was one to close. -/
def Action.open? : Action → Nat → Option Nat
  | .push, n => some (n + 1)
  | .pop, n => if 0 < n then some (n - 1) else none
  | _, n => some n

theorem Action.open?_add {a : Action} {n m : Nat} (h : a.open? n = some m) (k : Nat) :
    a.open? (n + k) = some (m + k) := by
  cases a with
  | push =>
    obtain rfl := Option.some.inj h
    exact congrArg some (Nat.add_right_comm n k 1)
  | pop =>
    obtain ⟨hn, hm⟩ := Option.ite_none_right_eq_some.mp h
    obtain rfl := Option.some.inj hm
    rw [open?, if_pos (Nat.add_pos_left hn k)]
    exact congrArg some (Nat.sub_add_comm hn)
  | _ =>
    obtain rfl := Option.some.inj h
    rfl

namespace Grammar

variable (g : Grammar)

/-- How many branches are open after a symbol.  One without an action opens and closes nothing. -/
def openAfter? (n : Nat) (s : Symbol) : Option Nat :=
  match g.action? s with
  | some a => a.open? n
  | none => some n

/-- How many branches are open after a word, if each symbol that closes one finds one open. -/
def open? (n : Nat) (w : Word) : Option Nat := w.foldlM g.openAfter? n

/-- Every symbol that closes a branch closes one that was opened before, and none stays open. -/
def Balanced (w : Word) : Prop := g.open? 0 w = some 0

instance (w : Word) : Decidable (g.Balanced w) := inferInstanceAs (Decidable (_ = _))

/-- Symbols that open or close a branch are never replaced, all others only by balanced words. -/
structure Bracketed : Prop where
  terminal : ∀ s, g.action? s = some .push ∨ g.action? s = some .pop → g.alternatives s = #[]
  balanced : ∀ s, ∀ w ∈ g.alternatives s, g.Balanced w

variable {g}

theorem openAfter?_add {n m : Nat} {s : Symbol} (h : g.openAfter? n s = some m) (k : Nat) :
    g.openAfter? (n + k) s = some (m + k) := by
  unfold openAfter? at h ⊢
  split at h
  · exact Action.open?_add h k
  · obtain rfl := Option.some.inj h
    rfl

theorem open?_cons (n : Nat) (s : Symbol) (w : Word) :
    g.open? n (s :: w) = (g.openAfter? n s).bind (g.open? · w) := List.foldlM_cons

theorem open?_append (n : Nat) (v w : Word) :
    g.open? n (v ++ w) = (g.open? n v).bind (g.open? · w) := List.foldlM_append

theorem open?_add {n m : Nat} {w : Word} (h : g.open? n w = some m) (k : Nat) :
    g.open? (n + k) w = some (m + k) := by
  induction w generalizing n with
  | nil =>
    obtain rfl := Option.some.inj h
    rfl
  | cons s w ih =>
    rw [open?_cons] at h ⊢
    obtain ⟨i, hs, hw⟩ := Option.bind_eq_some_iff.mp h
    rw [openAfter?_add hs k]
    exact ih hw

theorem Balanced.open? {w : Word} (h : g.Balanced w) (n : Nat) : g.open? n w = some n := by
  have hshift := open?_add h n
  rwa [Nat.zero_add] at hshift

/-! ## Replacing -/

theorem Bracketed.not_alternatives (h : g.Bracketed) {s : Symbol}
    (ha : g.action? s = some .push ∨ g.action? s = some .pop) :
    ¬ 0 < (g.alternatives s).size := by
  rw [h.terminal s ha]
  exact Nat.lt_irrefl 0

theorem Bracketed.openAfter? (h : g.Bracketed) {s : Symbol} (hs : 0 < (g.alternatives s).size)
    (n : Nat) : g.openAfter? n s = some n := by
  unfold Grammar.openAfter?
  cases ha : g.action? s with
  | none => rfl
  | some a =>
    cases a with
    | push => exact absurd hs (h.not_alternatives (Or.inl ha))
    | pop => exact absurd hs (h.not_alternatives (Or.inr ha))
    | _ => rfl

variable {σ : Type} [WordSource σ]

/-- Expanding a word changes nothing about what it leaves open. -/
theorem Bracketed.open?_expand (h : g.Bracketed) (rounds : Nat) {w : Word} {n m : Nat}
    (hw : g.open? n w = some m) (source : σ) :
    g.open? n (g.expand rounds w source).1 = some m := by
  induction rounds generalizing w n m source with
  | zero => exact hw
  | succ rounds ih =>
    induction w generalizing n source with
    | nil => exact hw
    | cons s w ihw =>
      rw [open?_cons] at hw
      obtain ⟨i, hs, hrest⟩ := Option.bind_eq_some_iff.mp hw
      have hpart : g.open? n (g.expand (rounds + 1) [s] source).1 = some i := by
        by_cases halternatives : 0 < (g.alternatives s).size
        · -- The symbol itself opens and closes nothing, and neither does what replaces it.
          rw [h.openAfter? halternatives] at hs
          obtain rfl := Option.some.inj hs
          rw [expand_of_alternatives halternatives]
          have hpick : g.Balanced (g.pick s halternatives (WordSource.next source).1) :=
            h.balanced s _ (Array.getElem_mem _)
          exact ih (hpick.open? n) _
        · rw [expand_of_terminal halternatives, open?_cons, hs]
          rfl
      rw [expand_cons, open?_append, hpart]
      exact ihw hrest _

theorem Balanced.expand {w : Word} (hw : g.Balanced w) (h : g.Bracketed) (rounds : Nat)
    (source : σ) : g.Balanced (g.expand rounds w source).1 :=
  h.open?_expand rounds hw source

end Grammar

/-! ## Carrying out -/

variable {μ α : Type}

/-- Going back, when there is a pose to go back to. -/
theorem Turtle.pop_of_stack [Scalar α] [Medium μ α] {t : Turtle μ α} {pose : Pose α}
    {stack : List (Pose α)} (h : t.pen.stack = pose :: stack) :
    t.pop =
      { pen := { t.pen with position := pose.position, heading := pose.heading, stack }
        medium := Medium.mark t.medium (.restored pose.position)
        unmatched := t.unmatched } := by
  simp only [pop, Pen.restore?, h]

/-- A turtle with `n` poses on top of those that it remembered before, and never told to go back
without one in between. -/
structure Turtle.Keeps (n : Nat) (t u : Turtle μ α) : Prop where
  stack : ∃ top, top.length = n ∧ u.pen.stack = top ++ t.pen.stack
  step : u.pen.step = t.pen.step
  angle : u.pen.angle = t.pen.angle
  unmatched : u.unmatched = t.unmatched

namespace Turtle.Keeps

variable {t u : Turtle μ α} {n m : Nat}

theorem refl (t : Turtle μ α) : Keeps 0 t t := ⟨⟨[], rfl, rfl⟩, rfl, rfl, rfl⟩

theorem stack_eq (h : Keeps 0 t u) : u.pen.stack = t.pen.stack := by
  obtain ⟨top, htop, hstack⟩ := h.stack
  obtain rfl := List.length_eq_zero_iff.mp htop
  exact hstack

variable [Scalar α] [Medium μ α]

theorem perform (h : Keeps n t u) {a : Action} (ha : a.open? n = some m) :
    Keeps m t (u.perform a) := by
  obtain ⟨⟨top, htop, hstack⟩, hstep, hangle, hunmatched⟩ := h
  cases a with
  | push =>
    obtain rfl := Option.some.inj ha
    refine ⟨⟨u.pen.pose :: top, congrArg (· + 1) htop, ?_⟩, hstep, hangle, hunmatched⟩
    exact congrArg (u.pen.pose :: ·) hstack
  | pop =>
    obtain ⟨hn, hm⟩ := Option.ite_none_right_eq_some.mp ha
    obtain rfl := Option.some.inj hm
    cases top with
    | nil => exact absurd hn (htop ▸ Nat.lt_irrefl 0)
    | cons pose top =>
      show Keeps _ t u.pop
      rw [pop_of_stack hstack]
      exact ⟨⟨top, by rw [← htop]; rfl, rfl⟩, hstep, hangle, hunmatched⟩
  | _ =>
    obtain rfl := Option.some.inj ha
    exact ⟨⟨top, htop, hstack⟩, hstep, hangle, hunmatched⟩

theorem carry {g : Grammar} {w : Word} (h : Keeps n t u) (hw : g.open? n w = some m) :
    Keeps m t (g.carry w u) := by
  induction w generalizing u n with
  | nil =>
    obtain rfl := Option.some.inj hw
    exact h
  | cons s w ih =>
    rw [Grammar.open?_cons] at hw
    obtain ⟨i, hs, hrest⟩ := Option.bind_eq_some_iff.mp hw
    refine ih ?_ hrest
    unfold Grammar.openAfter? at hs
    unfold Grammar.step
    cases ha : g.action? s with
    | none =>
      rw [ha] at hs
      obtain rfl := Option.some.inj hs
      exact h
    | some a =>
      rw [ha] at hs
      exact h.perform hs

end Turtle.Keeps

namespace Grammar

variable [Scalar α] [Medium μ α] {g : Grammar}

/-- After a branch the turtle stands where it stood before it, and faces the same way. -/
theorem pose_carry_branch {s e : Symbol} {v : Word} (hs : g.action? s = some .push)
    (hv : g.Balanced v) (he : g.action? e = some .pop) (t : Turtle μ α) :
    (g.carry (s :: v ++ [e]) t).pen.pose = t.pen.pose := by
  let u : Turtle μ α := g.carry v t.push
  have hstack : u.pen.stack = t.pen.pose :: t.pen.stack :=
    ((Turtle.Keeps.refl t.push).carry hv).stack_eq
  have hcarry : g.carry (s :: v ++ [e]) t = u.pop := by
    rw [List.cons_append, carry_cons, carry_append, show g.step t s = t.push by rw [step, hs]; rfl]
    show g.step u e = u.pop
    rw [step, he]
    rfl
  rw [hcarry, Turtle.pop_of_stack hstack]
  rfl

variable {σ : Type} [WordSource σ]

/-- A walk of a balanced word leaves what the turtle remembers, its step and its angle as they were,
and never tells it to go back without a pose to go back to, whatever is drawn and whatever it draws
on.  After a walk of a whole branch the turtle also stands where it stood, and faces the same way. -/
theorem walk_balanced_restores (h : g.Bracketed) (rounds : Nat) {w : Word} (hw : g.Balanced w)
    (t : Turtle μ α) (source : σ) :
    let u := (g.walk rounds w t source).2.1
    u.pen.stack = t.pen.stack ∧ u.pen.step = t.pen.step ∧ u.pen.angle = t.pen.angle ∧
      u.unmatched = t.unmatched ∧
      ∀ s v e, w = s :: v ++ [e] → g.action? s = some .push → g.Balanced v →
        g.action? e = some .pop →
        u.pen.position = t.pen.position ∧ u.pen.heading = t.pen.heading := by
  intro u
  have hu : u = g.carry (g.expand rounds w source).1 t :=
    congrArg Prod.fst (g.snd_walk rounds w t source)
  have hkeeps : Turtle.Keeps 0 t u := hu ▸ (Turtle.Keeps.refl t).carry (hw.expand h rounds source)
  refine ⟨hkeeps.stack_eq, hkeeps.step, hkeeps.angle, hkeeps.unmatched, ?_⟩
  rintro s v e rfl hs hv he
  -- The brackets around the branch stay, and what is between them stays balanced.
  have hexpand : (g.expand rounds (s :: v ++ [e]) source).1 =
      s :: (g.expand rounds v source).1 ++ [e] := by
    rw [List.cons_append, expand_cons, expand_of_terminal (h.not_alternatives (Or.inl hs)),
      expand_append, expand_of_terminal (h.not_alternatives (Or.inr he))]
    rfl
  rw [hexpand] at hu
  have hpose : u.pen.pose = t.pen.pose :=
    hu ▸ pose_carry_branch hs (hv.expand h rounds source) he t
  exact ⟨congrArg Pose.position hpose, congrArg Pose.heading hpose⟩

/-- A stem that grows a branch, or stays as it is. -/
def sprig : Grammar :=
  let stem : Symbol := ⟨0, 'F'⟩
  let left : Symbol := ⟨1, '+'⟩
  let opening : Symbol := ⟨2, '['⟩
  let closing : Symbol := ⟨3, ']'⟩
  { alphabet := .extend {} ['F', '+', '[', ']']
    actions := #[some .draw, some .turnLeft, some .push, some .pop]
    rules := #[#[[stem, opening, left, stem, closing, stem], [stem]], #[], #[], #[]]
    initial := [stem] }

theorem bracketed_sprig : sprig.Bracketed where
  terminal := by
    rintro ⟨id, char⟩ h
    match id with
    | 0 => exact absurd h (by rintro (h | h) <;> nomatch h)
    | 1 => rfl
    | 2 => rfl
    | 3 => rfl
    | _ + 4 => rfl
  balanced := by
    have hrules : ∀ ws ∈ sprig.rules, ∀ w ∈ ws, sprig.Balanced w := by decide
    intro s w hw
    rcases sprig.alternatives_eq_empty_or_mem s with hempty | hmem
    · rw [hempty] at hw
      exact absurd hw (Array.not_mem_empty w)
    · exact hrules _ hmem w hw

theorem walk_balanced_restores_sprig :
    let branch : Word := [⟨2, '['⟩, ⟨0, 'F'⟩, ⟨1, '+'⟩, ⟨3, ']'⟩]
    let u := (sprig.walk 3 branch climber (Random.Source.ofSeed 7)).2.1
    sprig.Bracketed ∧ sprig.Balanced branch ∧ u.pen.stack = climber.pen.stack ∧
      u.unmatched = climber.unmatched ∧ u.pen.position = climber.pen.position ∧
      u.pen.heading = climber.pen.heading := by
  intro branch u
  have hbranch : sprig.Balanced branch := by decide
  obtain ⟨hstack, -, -, hunmatched, hpose⟩ :=
    walk_balanced_restores bracketed_sprig 3 hbranch climber (Random.Source.ofSeed 7)
  have hend := hpose ⟨2, '['⟩ [⟨0, 'F'⟩, ⟨1, '+'⟩] ⟨3, ']'⟩ rfl rfl (by decide) rfl
  exact ⟨bracketed_sprig, hbranch, hstack, hunmatched, hend.1, hend.2⟩

end Grammar

end LSystem
