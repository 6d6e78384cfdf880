import LSystem.Proofs.Walk.Visits

/-!
# Walks that come to the same

A symbol without an action leaves a performer where it is, so a route only repeats a position there,
and the box around a route does not see repetitions.  What comes of a walk therefore depends on the
actions of its leaves and on the draws alone: walks that agree in both come to the same
(`sameWalk_of_calls`), whatever their words, their rounds and their grammars are.
-/

namespace LSystem.Grammar

open LSystem.Random (WordSource)

/-! ## Stops -/

section Stops

variable {α τ : Type} [Performer τ α]

/-- The positions after each of some actions. -/
def stops : List Action → τ → List (Point α)
  | [], _ => []
  | a :: as, t => Performer.position (Performer.perform t a) :: stops as (Performer.perform t a)

variable {g h : Grammar} {v w : Word}

theorem mem_route_iff (g : Grammar) (w : Word) (t : τ) {p : Point α} :
    p ∈ Performer.position t :: g.route w t ↔
      p ∈ Performer.position t :: stops (g.calls w) t := by
  induction w generalizing t with
  | nil => rfl
  | cons s w ih =>
    have htail := ih (g.step t s)
    rw [route, calls_cons]
    unfold step at htail ⊢
    cases hs : g.action? s with
    | none =>
      -- The position is the same as before, and its repetition adds no member.
      simp only [hs, Option.toList_none, List.nil_append, List.mem_cons] at htail ⊢
      rw [htail, or_self_left]
    | some a =>
      simp only [hs, Option.toList_some, List.singleton_append, stops] at htail ⊢
      rw [List.mem_cons, htail, ← List.mem_cons]

theorem forall_mem_route_of_calls (hcalls : g.calls v = h.calls w) (t : τ) {P : Point α → Prop}
    (hroute : ∀ p ∈ Performer.position t :: g.route v t, P p) :
    ∀ p ∈ Performer.position t :: h.route w t, P p := by
  intro p hp
  apply hroute p
  rwa [mem_route_iff, hcalls, ← mem_route_iff]

theorem foldl_grow_route [Scalar α] (g : Grammar) (w : Word) (t : τ) {b : Box α}
    (hb : b.grow (Performer.position t) = b) :
    (g.route w t).foldl Box.grow b = (stops (g.calls w) t).foldl Box.grow b := by
  induction w generalizing t b with
  | nil => rfl
  | cons s w ih =>
    rw [route, calls_cons, List.foldl_cons]
    unfold step
    cases hs : g.action? s with
    | none =>
      simp only [Option.toList_none, List.nil_append, hb]
      exact ih t hb
    | some a => exact ih (Performer.perform t a) (b.grow_grow_self _)

/-- The box around a route is the box around its stops. -/
theorem hull_route_of_calls [Scalar α] (hcalls : g.calls v = h.calls w) (t : τ) :
    Box.hull (Performer.position t) (g.route v t) =
      Box.hull (Performer.position t) (h.route w t) := by
  have hstart := Box.grow_single_self (Performer.position t)
  unfold Box.hull
  rw [foldl_grow_route g v t hstart, foldl_grow_route h w t hstart, hcalls]

end Stops

variable {α τ σ : Type} [Scalar α] [Performer τ α] [WordSource σ]

/-! ## The same walk -/

/-- Two walks of one performer, from one source, that nothing tells apart.  They perform the same
actions, which lead to the same positions, and leave the same performer and the same source.  If the
coordinates of all positions on the way are ordered, they also give the same box. -/
structure SameWalk (g : Grammar) (m : Nat) (v : Word) (h : Grammar) (n : Nat) (w : Word) (t : τ)
    (source : σ) : Prop where
  log : g.log m v t source = h.log n w t source
  performer : (g.walk m v t source).2.1 = (h.walk n w t source).2.1
  draws : (g.walk m v t source).2.2 = (h.walk n w t source).2.2
  box : ∀ P : α → Prop, WeaklyOrders (· < ·) P →
    (∀ p ∈ Performer.position t :: g.route (g.leaves m v source) t, p.Satisfies P) →
      (g.walk m v t source).1 = (h.walk n w t source).1

/-- Leaves with the same actions, after the same draws, come to the same walk. -/
theorem sameWalk_of_calls {g h : Grammar} {m n : Nat} {v w : Word} (t : τ) {source : σ}
    (hcalls : g.calls (g.expand m v source).1 = h.calls (h.expand n w source).1)
    (hsource : (g.expand m v source).2 = (h.expand n w source).2) :
    SameWalk g m v h n w t source where
  log := by
    rw [log_eq_carry, log_eq_carry, carry_eq_foldl_calls, carry_eq_foldl_calls, hcalls]
  performer := by
    rw [snd_walk, snd_walk, carry_eq_foldl_calls, carry_eq_foldl_calls, hcalls]
  draws := by rw [snd_walk, snd_walk, hsource]
  box := by
    intro P hP hroute
    rw [leaves_eq] at hroute
    have hroute' := forall_mem_route_of_calls hcalls t hroute
    rw [fst_walk hP g m v t source hroute, fst_walk hP h n w t source hroute',
      hull_route_of_calls hcalls t]

end LSystem.Grammar
