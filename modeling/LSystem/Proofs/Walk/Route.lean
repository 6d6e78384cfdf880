import LSystem.Proofs.Plane.Box
import LSystem.Proofs.Walk.Expansion

/-!
# What a walk makes of its performer

Carrying out a word symbol by symbol takes a performer along a route of positions, and the box of
the word is the box around that route.  A log notes every action with the position it leads to.
Performers that go the same way are carried by every walk to the same places, with the same box and
the same draws (`Simulates.walk`).
-/

namespace LSystem

open LSystem.Random (WordSource)

/-! ## Performers with a log -/

/-- A performer with the actions it has been told to perform, each with the position it led to. -/
structure Logged (τ α : Type) where
  performer : τ
  log : List (Action × Point α)

section Performers

variable {α τ υ : Type} [Performer τ α] [Performer υ α]

instance : Performer (Logged τ α) α where
  perform t a :=
    let moved := Performer.perform t.performer a
    ⟨moved, t.log ++ [(a, Performer.position moved)]⟩
  position t := Performer.position t.performer

/-- Performers that are related are in the same place, and stay related whatever they perform. -/
structure Simulates (R : τ → υ → Prop) : Prop where
  position : ∀ {t : τ} {u : υ}, R t u → Performer.position t = Performer.position u
  perform : ∀ {t : τ} {u : υ}, R t u → ∀ a, R (Performer.perform t a) (Performer.perform u a)

/-- A performer with a log goes the way it goes without one. -/
theorem simulates_performer : Simulates fun (t : Logged τ α) (u : τ) => t.performer = u where
  position h := congrArg Performer.position h
  perform h a := congrArg (Performer.perform · a) h

-- Logs that agree before agree after.
theorem Simulates.logged {R : τ → υ → Prop} (h : Simulates R) :
    Simulates fun (t : Logged τ α) (u : Logged υ α) =>
      R t.performer u.performer ∧ t.log = u.log where
  position htu := h.position htu.1
  perform htu a := by
    have hmoved := h.perform htu.1 a
    refine ⟨hmoved, ?_⟩
    simp only [Performer.perform, htu.2]
    rw [← h.position hmoved]

/-! ## Carrying out a word -/

namespace Grammar

/-- The actions of a word. -/
def calls (g : Grammar) (w : Word) : List Action := w.filterMap g.action?

def carry (g : Grammar) (w : Word) (t : τ) : τ := w.foldl g.step t

/-- The positions after each symbol of a word. -/
def route (g : Grammar) : Word → τ → List (Point α)
  | [], _ => []
  | s :: w, t => Performer.position (g.step t s) :: route g w (g.step t s)

theorem calls_cons (g : Grammar) (s : Symbol) (w : Word) :
    g.calls (s :: w) = (g.action? s).toList ++ g.calls w := by
  unfold calls
  cases h : g.action? s <;> simp [h]

theorem step_eq_foldl (g : Grammar) (t : τ) (s : Symbol) :
    g.step t s = (g.action? s).toList.foldl Performer.perform t := by
  unfold step
  cases g.action? s <;> rfl

theorem carry_cons (g : Grammar) (s : Symbol) (w : Word) (t : τ) :
    g.carry (s :: w) t = g.carry w (g.step t s) := rfl

theorem carry_append (g : Grammar) (v w : Word) (t : τ) :
    g.carry (v ++ w) t = g.carry w (g.carry v t) := List.foldl_append

theorem carry_eq_foldl_calls (g : Grammar) (w : Word) (t : τ) :
    g.carry w t = (g.calls w).foldl Performer.perform t := by
  induction w generalizing t with
  | nil => rfl
  | cons s w ih => rw [carry_cons, ih, calls_cons, List.foldl_append, step_eq_foldl]

theorem route_append (g : Grammar) (v w : Word) (t : τ) :
    g.route (v ++ w) t = g.route v t ++ g.route w (g.carry v t) := by
  induction v generalizing t with
  | nil => rfl
  | cons s v ih => simp only [List.cons_append, route, carry_cons, ih]

theorem map_fst_log_carry (g : Grammar) (w : Word) (t : Logged τ α) :
    (g.carry w t).log.map Prod.fst = t.log.map Prod.fst ++ g.calls w := by
  rw [carry_eq_foldl_calls]
  induction g.calls w generalizing t with
  | nil => exact (List.append_nil _).symm
  | cons a as ih =>
    rw [List.foldl_cons, ih]
    simp [Performer.perform]

end Grammar

namespace Simulates

variable {R : τ → υ → Prop} {t : τ} {u : υ}

theorem step (h : Simulates R) (htu : R t u) (g : Grammar) (s : Symbol) :
    R (g.step t s) (g.step u s) := by
  unfold Grammar.step
  cases g.action? s with
  | none => exact htu
  | some a => exact h.perform htu a

theorem carry (h : Simulates R) (htu : R t u) (g : Grammar) (w : Word) :
    R (g.carry w t) (g.carry w u) := by
  induction w generalizing t u with
  | nil => exact htu
  | cons s w ih => exact ih (h.step htu g s)

theorem route (h : Simulates R) (htu : R t u) (g : Grammar) (w : Word) :
    g.route w t = g.route w u := by
  induction w generalizing t u with
  | nil => rfl
  | cons s w ih =>
    have hs := h.step htu g s
    simp only [Grammar.route, h.position hs, ih hs]

end Simulates

namespace Grammar

theorem log_carry_subset (g : Grammar) (w : Word) (t : Logged τ α) {x : Action × Point α}
    (hx : x ∈ (g.carry w t).log) : x ∈ t.log ∨ x.2 ∈ g.route w t.performer := by
  induction w generalizing t with
  | nil => exact Or.inl hx
  | cons s w ih =>
    have hperformer : (g.step t s).performer = g.step t.performer s :=
      simulates_performer.step rfl g s
    have hlog : x ∈ (g.step t s).log →
        x ∈ t.log ∨ x.2 = Performer.position (g.step t.performer s) := by
      unfold step
      cases g.action? s with
      | none => exact Or.inl
      | some a =>
        intro hstep
        rcases List.mem_append.mp hstep with hbefore | hnow
        · exact Or.inl hbefore
        · exact Or.inr (congrArg Prod.snd (List.mem_singleton.mp hnow))
    rw [route]
    rcases ih (g.step t s) hx with hstep | hroute
    · rcases hlog hstep with hbefore | hnow
      · exact Or.inl hbefore
      · exact Or.inr (hnow ▸ List.mem_cons_self)
    · rw [hperformer] at hroute
      exact Or.inr (List.mem_cons_of_mem _ hroute)

end Grammar

end Performers

/-! ## Walks, symbol by symbol -/

variable {α τ υ σ : Type} [Scalar α] [Performer τ α] [Performer υ α] [WordSource σ]

namespace Grammar

/-- The actions that a walk performs, in order, each with the position it leads to. -/
def log (g : Grammar) (rounds : Nat) (w : Word) (t : τ) (source : σ) : List (Action × Point α) :=
  (g.walk rounds w (⟨t, []⟩ : Logged τ α) source).2.1.log

theorem execute_eq (g : Grammar) (w : Word) (t : τ) :
    g.execute w t = (Box.hull (Performer.position t) (g.route w t), g.carry w t) := by
  have hfold (b : Box α) (t : τ) :
      w.foldl
        (fun (x : Box α × τ) s => (x.1.grow (Performer.position (g.step x.2 s)), g.step x.2 s))
        (b, t) = ((g.route w t).foldl Box.grow b, g.carry w t) := by
    induction w generalizing b t with
    | nil => rfl
    | cons s w ih => exact ih _ _
  exact hfold _ _

def walkSymbol (g : Grammar) (rounds : Nat) (s : Symbol) (t : τ) (source : σ) : Box α × τ × σ :=
  match g.rewrite? s source with
  | some (replacement, source) => g.walk rounds replacement t source
  | none => g.walk 0 [s] t source

-- The body of the walk, by name.
def walkStep (g : Grammar) (rounds : Nat) :
    Option (Box α) × τ × σ → Symbol → Option (Box α) × τ × σ
  | (bounds, t, source), s =>
    match g.rewrite? s source with
    | some (replacement, source) =>
      let (part, t, source) := g.walk rounds replacement t source
      (some (join bounds part), t, source)
    | none =>
      let (part, t) := g.execute [s] t
      (some (join bounds part), t, source)

theorem walkStep_eq (g : Grammar) (rounds : Nat) (x : Option (Box α) × τ × σ) (s : Symbol) :
    g.walkStep rounds x s =
      (some (join x.1 (g.walkSymbol rounds s x.2.1 x.2.2).1),
        (g.walkSymbol rounds s x.2.1 x.2.2).2) := by
  rcases x with ⟨bounds, t, source⟩
  unfold walkStep walkSymbol
  cases h : g.rewrite? s source with
  | some replacement => simp only [h]
  | none => simp only [h, walk]

theorem walk_zero (g : Grammar) (w : Word) (t : τ) (source : σ) :
    g.walk 0 w t source = (Box.hull (Performer.position t) (g.route w t), g.carry w t, source) := by
  rw [walk, execute_eq]

theorem walk_succ (g : Grammar) (rounds : Nat) (w : Word) (t : τ) (source : σ) :
    g.walk (rounds + 1) w t source =
      ((w.foldl (g.walkStep rounds) (none, t, source)).1.getD
          (Box.single (Performer.position (w.foldl (g.walkStep rounds) (none, t, source)).2.1)),
        (w.foldl (g.walkStep rounds) (none, t, source)).2) := rfl

end Grammar

/-- Outcomes with the same value, related performers and the same source. -/
def Agree {β : Type} (R : τ → υ → Prop) (x : β × τ × σ) (y : β × υ × σ) : Prop :=
  x.1 = y.1 ∧ R x.2.1 y.2.1 ∧ x.2.2 = y.2.2

namespace Simulates

variable {R : τ → υ → Prop} {t : τ} {u : υ}

private theorem walkStep (g : Grammar) (rounds : Nat)
    (hwalk : ∀ (w : Word) {t : τ} {u : υ}, R t u → ∀ source : σ,
      Agree R (g.walk rounds w t source) (g.walk rounds w u source))
    (hflat : ∀ (w : Word) {t : τ} {u : υ}, R t u → ∀ source : σ,
      Agree R (g.walk 0 w t source) (g.walk 0 w u source))
    {x : Option (Box α) × τ × σ} {y : Option (Box α) × υ × σ} (hxy : Agree R x y) (s : Symbol) :
    Agree R (g.walkStep rounds x s) (g.walkStep rounds y s) := by
  rcases hxy with ⟨hbox, htu, hsource⟩
  have hsymbol :
      Agree R (g.walkSymbol rounds s x.2.1 x.2.2) (g.walkSymbol rounds s y.2.1 y.2.2) := by
    unfold Grammar.walkSymbol
    rw [hsource]
    cases g.rewrite? s y.2.2 with
    | none => exact hflat [s] htu _
    | some replacement => exact hwalk replacement.1 htu _
  rcases hsymbol with ⟨hpart, hperformer, hrest⟩
  rw [Grammar.walkStep_eq, Grammar.walkStep_eq]
  refine ⟨?_, hperformer, hrest⟩
  simp only [hbox, hpart]

/-- Performers that go the same way are walked to related states, with the same box and source. -/
theorem walk (h : Simulates R) (g : Grammar) (rounds : Nat) (w : Word) (htu : R t u) (source : σ) :
    Agree R (g.walk rounds w t source) (g.walk rounds w u source) := by
  have hflat (w : Word) {t : τ} {u : υ} (htu : R t u) (source : σ) :
      Agree R (g.walk 0 w t source) (g.walk 0 w u source) := by
    simp only [Grammar.walk_zero, h.position htu, h.route htu g w]
    exact ⟨rfl, h.carry htu g w, rfl⟩
  induction rounds generalizing w t u source with
  | zero => exact hflat w htu source
  | succ rounds ih =>
    -- The parts agree one by one, from whatever has agreed so far.
    have hfold {x : Option (Box α) × τ × σ} {y : Option (Box α) × υ × σ} (hxy : Agree R x y) :
        Agree R (w.foldl (g.walkStep rounds) x) (w.foldl (g.walkStep rounds) y) := by
      induction w generalizing x y with
      | nil => exact hxy
      | cons s w ihw =>
        have hstep := walkStep g rounds (fun w _ _ htu source => ih w htu source) hflat hxy s
        exact ihw hstep
    have hwalk : Agree R (w.foldl (g.walkStep rounds) (none, t, source))
        (w.foldl (g.walkStep rounds) (none, u, source)) := hfold ⟨rfl, htu, rfl⟩
    rcases hwalk with ⟨hbox, hperformer, hrest⟩
    rw [Grammar.walk_succ, Grammar.walk_succ]
    refine ⟨?_, hperformer, hrest⟩
    simp only [hbox, h.position hperformer]

/-- Performers that go the same way perform the same actions at the same positions. -/
theorem log (h : Simulates R) (g : Grammar) (rounds : Nat) (w : Word) (htu : R t u) (source : σ) :
    g.log rounds w t source = g.log rounds w u source := by
  let start : Logged τ α := ⟨t, []⟩
  let start' : Logged υ α := ⟨u, []⟩
  have hlogged := h.logged.walk g rounds w (t := start) (u := start') ⟨htu, rfl⟩ source
  exact hlogged.2.1.2

end Simulates

/-- A walk goes the same way whether a log is kept of it or not. -/
theorem Grammar.walk_logged (g : Grammar) (rounds : Nat) (w : Word) (t : Logged τ α) (source : σ) :
    Agree (fun (t : Logged τ α) (u : τ) => t.performer = u) (g.walk rounds w t source)
      (g.walk rounds w t.performer source) :=
  simulates_performer.walk g rounds w rfl source

end LSystem
