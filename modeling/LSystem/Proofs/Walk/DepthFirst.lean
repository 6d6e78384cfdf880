import LSystem.Proofs.Walk.Route

/-!
# Walking depth first

A walk replaces symbols as it comes to them and never puts a replaced word together.  Still it does
exactly what carrying out the expanded word does: the same actions in the same order, the same final
performer, the same draws and, where the positions on the way are ordered, the same box.  The box
needs care, since a walk joins the boxes of its parts, and each part counts the position it starts
from again.
-/

namespace LSystem.Grammar

open LSystem.Random (WordSource)

/-! ## Where a performer stands -/

section Route

variable {α τ : Type} [Performer τ α]

theorem position_carry_mem (g : Grammar) (w : Word) (t : τ) :
    Performer.position (g.carry w t) ∈ Performer.position t :: g.route w t := by
  induction w generalizing t with
  | nil => exact List.mem_cons_self
  | cons s w ih => exact List.mem_cons_of_mem _ (ih (g.step t s))

-- Each part starts where the box has been already, so its first position changes nothing.
theorem foldl_grow_route_absorbs [Scalar α] (g : Grammar) (w : Word) (t : τ) {b : Box α}
    (hb : b.grow (Performer.position t) = b) :
    ((g.route w t).foldl Box.grow b).grow (Performer.position (g.carry w t)) =
      (g.route w t).foldl Box.grow b := by
  induction w generalizing t b with
  | nil => exact hb
  | cons s w ih => exact ih (g.step t s) (b.grow_grow_self _)

end Route

variable {α τ σ : Type} [Scalar α] [Performer τ α] [WordSource σ] {P : α → Prop}

/-! ## The performer and the source -/

private theorem snd_walkSymbol (g : Grammar) (rounds : Nat)
    (hwalk : ∀ (w : Word) (t : τ) (source : σ), (g.walk rounds w t source).2 =
      (g.carry (g.expand rounds w source).1 t, (g.expand rounds w source).2))
    (s : Symbol) (t : τ) (source : σ) :
    (g.walkSymbol rounds s t source).2 =
      (g.carry (g.expand (rounds + 1) [s] source).1 t, (g.expand (rounds + 1) [s] source).2) := by
  unfold walkSymbol
  by_cases h : 0 < (g.alternatives s).size
  · rw [rewrite?_of_alternatives h, expand_of_alternatives h]
    exact hwalk _ _ _
  · rw [rewrite?_of_terminal h, expand_of_terminal h, walk_zero]

/-- A walk leaves the performer and the source as carrying out the expanded word does. -/
theorem snd_walk (g : Grammar) (rounds : Nat) (w : Word) (t : τ) (source : σ) :
    (g.walk rounds w t source).2 =
      (g.carry (g.expand rounds w source).1 t, (g.expand rounds w source).2) := by
  induction rounds generalizing w t source with
  | zero => rw [walk_zero, expand_zero]
  | succ rounds ih =>
    have hfold (w : Word) (x : Option (Box α) × τ × σ) :
        (w.foldl (g.walkStep rounds) x).2 =
          (g.carry (g.expand (rounds + 1) w x.2.2).1 x.2.1, (g.expand (rounds + 1) w x.2.2).2) := by
      induction w generalizing x with
      | nil => rfl
      | cons s w ihw =>
        have hstep : (g.walkStep rounds x s).2 = (g.walkSymbol rounds s x.2.1 x.2.2).2 :=
          congrArg Prod.snd (g.walkStep_eq rounds x s)
        rw [List.foldl_cons, ihw, hstep, snd_walkSymbol g rounds ih,
          expand_cons g (rounds + 1) s w, carry_append]
    rw [walk_succ]
    exact hfold w (none, t, source)

theorem log_eq_carry (g : Grammar) (rounds : Nat) (w : Word) (t : τ) (source : σ) :
    g.log rounds w t source =
      (g.carry (g.expand rounds w source).1 (⟨t, []⟩ : Logged τ α)).log := by
  rw [log, snd_walk]

/-! ## The box -/

private theorem fst_walkSymbol (g : Grammar) (rounds : Nat)
    (hwalk : ∀ (w : Word) (t : τ) (source : σ),
      (∀ p ∈ Performer.position t :: g.route (g.expand rounds w source).1 t, p.Satisfies P) →
        (g.walk rounds w t source).1 =
          Box.hull (Performer.position t) (g.route (g.expand rounds w source).1 t))
    (s : Symbol) (t : τ) (source : σ)
    (hroute : ∀ p ∈ Performer.position t :: g.route (g.expand (rounds + 1) [s] source).1 t,
      p.Satisfies P) :
    (g.walkSymbol rounds s t source).1 =
      Box.hull (Performer.position t) (g.route (g.expand (rounds + 1) [s] source).1 t) := by
  unfold walkSymbol
  by_cases h : 0 < (g.alternatives s).size
  · rw [expand_of_alternatives h] at hroute ⊢
    rw [rewrite?_of_alternatives h]
    exact hwalk _ _ _ hroute
  · rw [rewrite?_of_terminal h, expand_of_terminal h, walk_zero]

-- Joining the box of a part to what has been walked so far is growing it along the part's route.
private theorem join_hull (h : WeaklyOrders (α := α) (· < ·) P) {bounds : Option (Box α)}
    {p : Point α} {ps : List (Point α)} (hb : (bounds.getD (Box.single p)).Satisfies P)
    (habsorbs : (bounds.getD (Box.single p)).grow p = bounds.getD (Box.single p))
    (hps : ∀ q ∈ p :: ps, q.Satisfies P) :
    join bounds (Box.hull p ps) = ps.foldl Box.grow (bounds.getD (Box.single p)) := by
  cases bounds with
  | none => rfl
  | some b =>
    have hp : p.Satisfies P := hps p List.mem_cons_self
    have hrest : ∀ q ∈ ps, q.Satisfies P := fun q hq => hps q (List.mem_cons_of_mem p hq)
    calc
      b.union (ps.foldl Box.grow (Box.single p))
        = ps.foldl Box.grow (b.union (Box.single p)) :=
          Box.union_foldl_grow h hb (Box.satisfies_single hp) hrest
      _ = ps.foldl Box.grow (b.grow p) := by rw [Box.union_single]
      _ = ps.foldl Box.grow b := congrArg (ps.foldl Box.grow) habsorbs

theorem fst_walk (h : WeaklyOrders (α := α) (· < ·) P) (g : Grammar) (rounds : Nat) (w : Word)
    (t : τ) (source : σ)
    (hroute : ∀ p ∈ Performer.position t :: g.route (g.expand rounds w source).1 t, p.Satisfies P) :
    (g.walk rounds w t source).1 =
      Box.hull (Performer.position t) (g.route (g.expand rounds w source).1 t) := by
  induction rounds generalizing w t source with
  | zero => rw [walk_zero, expand_zero]
  | succ rounds ih =>
    -- So far a box `b` holds what has been walked, the present position among it.
    have hfold (w : Word) (x : Option (Box α) × τ × σ) (b : Box α)
        (hx : x.1.getD (Box.single (Performer.position x.2.1)) = b) (hb : b.Satisfies P)
        (habsorbs : b.grow (Performer.position x.2.1) = b)
        (hroute : ∀ p ∈ Performer.position x.2.1 ::
          g.route (g.expand (rounds + 1) w x.2.2).1 x.2.1, p.Satisfies P) :
        (w.foldl (g.walkStep rounds) x).1.getD
            (Box.single (Performer.position (w.foldl (g.walkStep rounds) x).2.1)) =
          (g.route (g.expand (rounds + 1) w x.2.2).1 x.2.1).foldl Box.grow b := by
      induction w generalizing x b with
      | nil => exact hx
      | cons s w ihw =>
        rcases x with ⟨bounds, t, source⟩
        rw [expand_cons g (rounds + 1) s w, route_append] at hroute
        have hhead : ∀ p ∈ Performer.position t :: g.route (g.expand (rounds + 1) [s] source).1 t,
            p.Satisfies P := by
          intro p hp
          rcases List.mem_cons.mp hp with rfl | hp
          · exact hroute _ List.mem_cons_self
          · exact hroute p (List.mem_cons_of_mem _ (List.mem_append_left _ hp))
        have hsnd := snd_walkSymbol g rounds (snd_walk g rounds) s t source
        have hfst := fst_walkSymbol g rounds ih s t source hhead
        have hstep : g.walkStep rounds (bounds, t, source) s =
            (some ((g.route (g.expand (rounds + 1) [s] source).1 t).foldl Box.grow b),
              g.carry (g.expand (rounds + 1) [s] source).1 t,
              (g.expand (rounds + 1) [s] source).2) := by
          subst hx
          simp only [walkStep_eq, hsnd, hfst, join_hull h hb habsorbs hhead]
        rw [List.foldl_cons, hstep, expand_cons g (rounds + 1) s w, route_append, List.foldl_append]
        refine ihw (some _, _, _) _ Option.getD_some ?_ (foldl_grow_route_absorbs g _ t habsorbs) ?_
        · exact Box.satisfies_foldl_grow hb fun p hp => hhead p (List.mem_cons_of_mem _ hp)
        · intro p hp
          rcases List.mem_cons.mp hp with rfl | hp
          · exact hhead _ (position_carry_mem g _ t)
          · exact hroute p (List.mem_cons_of_mem _ (List.mem_append_right _ hp))
    rw [walk_succ]
    refine hfold w (none, t, source) _ rfl ?_ (Box.grow_single_self _) hroute
    exact Box.satisfies_single (hroute _ List.mem_cons_self)

/-- A walk does what carrying out the expanded word does: it performs the same actions in the same
order, which are those of the expanded word, and leaves the same performer and the same source.  If
the coordinates of all positions on the way are ordered, it also gives the same box. -/
theorem walk_eq_walk_expand (g : Grammar) (rounds : Nat) (w : Word) (t : τ) (source : σ) :
    let leaves := (g.expand rounds w source).1
    let rest := (g.expand rounds w source).2
    (g.walk rounds w t source).2 = (g.walk 0 leaves t rest).2 ∧
      g.log rounds w t source = g.log 0 leaves t rest ∧
      (g.log rounds w t source).map Prod.fst = g.calls leaves ∧
      ∀ P : α → Prop, WeaklyOrders (· < ·) P →
        (∀ p ∈ Performer.position t :: g.route leaves t, p.Satisfies P) →
        (g.walk rounds w t source).1 = (g.walk 0 leaves t rest).1 := by
  intro leaves rest
  have hlog : g.log rounds w t source = (g.carry leaves (⟨t, []⟩ : Logged τ α)).log :=
    g.log_eq_carry rounds w t source
  refine ⟨?_, ?_, ?_, ?_⟩
  · rw [snd_walk, walk_zero]
  · rw [hlog, log, walk_zero]
  · rw [hlog, map_fst_log_carry]
    exact List.nil_append _
  · intro P h hroute
    rw [fst_walk h g rounds w t source hroute, walk_zero]

/-! ## A walk that only goes back -/

/-- A symbol that goes back before it is replaced again, or after. -/
def wanderer : Grammar :=
  let x : Symbol := ⟨0, 'X'⟩
  let back : Symbol := ⟨1, ']'⟩
  { alphabet := .extend {} ['X', ']']
    actions := #[none, some .pop]
    rules := #[#[[x, back], [back, x]], #[]]
    initial := [x] }

/-- A turtle that remembers two positions. -/
def climber : Turtle Silent Float :=
  { pen := { Pen.initial with stack := [⟨⟨1.5, -2.0⟩, 90.0⟩, ⟨⟨-3.0, 0.25⟩, 0.0⟩] }
    medium := ⟨⟩ }

theorem walk_eq_walk_expand_wanderer :
    (∀ p ∈ Performer.position climber ::
        wanderer.route (wanderer.expand 2 wanderer.initial (Random.Source.ofSeed 7)).1 climber,
      p.Satisfies fun x => x.isNaN = false) ∧
      (wanderer.walk 2 wanderer.initial climber (Random.Source.ofSeed 7)).1 =
        (wanderer.walk 0 (wanderer.expand 2 wanderer.initial (Random.Source.ofSeed 7)).1 climber
          (wanderer.expand 2 wanderer.initial (Random.Source.ofSeed 7)).2).1 := by
  have hroute : ∀ p ∈ Performer.position climber ::
      wanderer.route (wanderer.expand 2 wanderer.initial (Random.Source.ofSeed 7)).1 climber,
      p.Satisfies fun x => x.isNaN = false := by decide +kernel
  have hwalk := walk_eq_walk_expand wanderer 2 wanderer.initial climber (Random.Source.ofSeed 7)
  exact ⟨hroute, hwalk.2.2.2 _ ordered_double.weak hroute⟩

end LSystem.Grammar
