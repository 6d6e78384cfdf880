import LSystem.Plane.Box
import LSystem.Proofs.Number.Order

/-!
# Boxes around points

A box is grown point by point or joined with another box.  Where the coordinates are ordered both
come to the same, and the box is the least one that holds the points.
-/

namespace LSystem

variable {α : Type}

/-- Both coordinates satisfy a condition. -/
def Point.Satisfies (P : α → Prop) (p : Point α) : Prop := P p.x ∧ P p.y

instance (P : α → Prop) [DecidablePred P] (p : Point α) : Decidable (p.Satisfies P) :=
  inferInstanceAs (Decidable (_ ∧ _))

namespace Box

/-- All four coordinates satisfy a condition. -/
def Satisfies (P : α → Prop) (b : Box α) : Prop := b.low.Satisfies P ∧ b.high.Satisfies P

instance (P : α → Prop) [DecidablePred P] (b : Box α) : Decidable (b.Satisfies P) :=
  inferInstanceAs (Decidable (_ ∧ _))

/-- Each side of the box goes through one of the points. -/
structure TouchedBy (b : Box α) (ps : List (Point α)) : Prop where
  left : ∃ p ∈ ps, p.x = b.low.x
  bottom : ∃ p ∈ ps, p.y = b.low.y
  right : ∃ p ∈ ps, p.x = b.high.x
  top : ∃ p ∈ ps, p.y = b.high.y

private theorem exists_keep {r : α → α → Prop} [DecidableRel r] {ps qs : List (Point α)} {a c : α}
    (side : Point α → α) (ha : ∃ p ∈ ps, side p = a) (hc : ∃ q ∈ qs, side q = c) :
    ∃ p ∈ ps ++ qs, side p = keep r a c := by
  rcases ha with ⟨p, hp, rfl⟩
  rcases hc with ⟨q, hq, rfl⟩
  rcases keep_eq_or (r := r) (side p) (side q) with heq | heq
  · exact ⟨p, List.mem_append_left _ hp, heq.symm⟩
  · exact ⟨q, List.mem_append_right _ hq, heq.symm⟩

theorem satisfies_single {P : α → Prop} {p : Point α} (hp : p.Satisfies P) :
    (single p).Satisfies P := ⟨hp, hp⟩

theorem touchedBy_single (p : Point α) : (single p).TouchedBy [p] :=
  have hp : p ∈ [p] := List.mem_singleton.mpr rfl
  ⟨⟨p, hp, rfl⟩, ⟨p, hp, rfl⟩, ⟨p, hp, rfl⟩, ⟨p, hp, rfl⟩⟩

theorem touchedBy_corners (b : Box α) : b.TouchedBy [b.low, b.high] := by
  have hlow : b.low ∈ [b.low, b.high] := List.mem_cons_self
  have hhigh : b.high ∈ [b.low, b.high] := List.mem_cons_of_mem _ List.mem_cons_self
  exact ⟨⟨_, hlow, rfl⟩, ⟨_, hlow, rfl⟩, ⟨_, hhigh, rfl⟩, ⟨_, hhigh, rfl⟩⟩

theorem TouchedBy.satisfies {P : α → Prop} {b : Box α} {ps : List (Point α)} (hb : b.TouchedBy ps)
    (hps : ∀ p ∈ ps, p.Satisfies P) : b.Satisfies P := by
  obtain ⟨⟨l, hl, hleft⟩, ⟨d, hd, hbottom⟩, ⟨r, hr, hright⟩, ⟨u, hu, htop⟩⟩ := hb
  exact ⟨⟨hleft ▸ (hps l hl).1, hbottom ▸ (hps d hd).2⟩, hright ▸ (hps r hr).1, htop ▸ (hps u hu).2⟩

variable [Scalar α] {P : α → Prop}

/-- The box around a first point and some more. -/
def hull (p : Point α) (ps : List (Point α)) : Box α := ps.foldl grow (single p)

theorem around?_cons (p : Point α) (ps : List (Point α)) : around? (p :: ps) = some (hull p ps) :=
  rfl

theorem around?_concat (ps : List (Point α)) (p : Point α) (hps : ps ≠ []) :
    around? (ps ++ [p]) = (around? ps).map (·.grow p) := by
  cases ps with
  | nil => exact absurd rfl hps
  | cons q ps => simp [around?]

/-! ## Growing -/

theorem union_eq (b c : Box α) :
    b.union c =
      ⟨⟨keep (· < ·) b.low.x c.low.x, keep (· < ·) b.low.y c.low.y⟩,
        ⟨keep (· > ·) b.high.x c.high.x, keep (· > ·) b.high.y c.high.y⟩⟩ := rfl

theorem union_single (b : Box α) (p : Point α) : b.union (single p) = b.grow p := rfl

theorem grow_eq (b : Box α) (p : Point α) :
    b.grow p =
      ⟨⟨keep (· < ·) b.low.x p.x, keep (· < ·) b.low.y p.y⟩,
        ⟨keep (· > ·) b.high.x p.x, keep (· > ·) b.high.y p.y⟩⟩ := rfl

theorem satisfies_union {b c : Box α} (hb : b.Satisfies P) (hc : c.Satisfies P) :
    (b.union c).Satisfies P := by
  rw [union_eq]
  exact ⟨⟨keep_mem hb.1.1 hc.1.1, keep_mem hb.1.2 hc.1.2⟩,
    keep_mem (r := (· > ·)) hb.2.1 hc.2.1, keep_mem (r := (· > ·)) hb.2.2 hc.2.2⟩

theorem satisfies_grow {b : Box α} {p : Point α} (hb : b.Satisfies P) (hp : p.Satisfies P) :
    (b.grow p).Satisfies P :=
  satisfies_union hb (satisfies_single hp)

theorem satisfies_foldl_grow {b : Box α} {ps : List (Point α)} (hb : b.Satisfies P)
    (hps : ∀ p ∈ ps, p.Satisfies P) : (ps.foldl grow b).Satisfies P := by
  induction ps generalizing b with
  | nil => exact hb
  | cons p ps ih =>
    have hp : p.Satisfies P := hps p List.mem_cons_self
    exact ih (satisfies_grow hb hp) fun q hq => hps q (List.mem_cons_of_mem p hq)

-- This needs no order.
theorem grow_grow_self (b : Box α) (p : Point α) : (b.grow p).grow p = b.grow p := by
  simp only [grow_eq, keep_keep_self]

theorem grow_single_self (p : Point α) : (single p).grow p = single p := by
  simp only [grow_eq, single, keep_self]

/-! ## Joining -/

theorem union_grow (h : WeaklyOrders (α := α) (· < ·) P) {b c : Box α} {p : Point α}
    (hb : b.Satisfies P) (hc : c.Satisfies P) (hp : p.Satisfies P) :
    b.union (c.grow p) = (b.union c).grow p := by
  have hgt : WeaklyOrders (α := α) (· > ·) P := h.swap
  simp only [grow_eq, union_eq]
  rw [keep_assoc h hb.1.1 hc.1.1 hp.1, keep_assoc h hb.1.2 hc.1.2 hp.2,
    keep_assoc hgt hb.2.1 hc.2.1 hp.1, keep_assoc hgt hb.2.2 hc.2.2 hp.2]

theorem union_foldl_grow (h : WeaklyOrders (α := α) (· < ·) P) {b c : Box α} {ps : List (Point α)}
    (hb : b.Satisfies P) (hc : c.Satisfies P) (hps : ∀ p ∈ ps, p.Satisfies P) :
    b.union (ps.foldl grow c) = ps.foldl grow (b.union c) := by
  induction ps generalizing c with
  | nil => rfl
  | cons p ps ih =>
    have hp : p.Satisfies P := hps p List.mem_cons_self
    simp only [List.foldl_cons]
    rw [ih (satisfies_grow hc hp) fun q hq => hps q (List.mem_cons_of_mem p hq),
      union_grow h hb hc hp]

/-! ## Holding points -/

/-- No coordinate of the point lies beyond the box. -/
def Holds (b : Box α) (p : Point α) : Prop :=
  (¬ p.x < b.low.x ∧ ¬ p.y < b.low.y) ∧ ¬ b.high.x < p.x ∧ ¬ b.high.y < p.y

/-- No side of the other box lies beyond the box. -/
def Covers (b c : Box α) : Prop :=
  (¬ c.low.x < b.low.x ∧ ¬ c.low.y < b.low.y) ∧ ¬ b.high.x < c.high.x ∧ ¬ b.high.y < c.high.y

theorem covers_refl (h : WeaklyOrders (α := α) (· < ·) P) {b : Box α} (hb : b.Satisfies P) :
    b.Covers b :=
  ⟨⟨h.irrefl hb.1.1, h.irrefl hb.1.2⟩, h.irrefl hb.2.1, h.irrefl hb.2.2⟩

theorem Covers.trans (h : WeaklyOrders (α := α) (· < ·) P) {b c d : Box α} (hb : b.Satisfies P)
    (hc : c.Satisfies P) (hd : d.Satisfies P) (hbc : b.Covers c) (hcd : c.Covers d) :
    b.Covers d := by
  refine ⟨⟨?_, ?_⟩, ?_, ?_⟩
  · exact h.not_trans hd.1.1 hc.1.1 hb.1.1 hcd.1.1 hbc.1.1
  · exact h.not_trans hd.1.2 hc.1.2 hb.1.2 hcd.1.2 hbc.1.2
  · exact h.not_trans hb.2.1 hc.2.1 hd.2.1 hbc.2.1 hcd.2.1
  · exact h.not_trans hb.2.2 hc.2.2 hd.2.2 hbc.2.2 hcd.2.2

theorem covers_union_left (h : WeaklyOrders (α := α) (· < ·) P) {b : Box α} (hb : b.Satisfies P)
    (c : Box α) : (b.union c).Covers b := by
  have hgt : WeaklyOrders (α := α) (· > ·) P := h.swap
  exact ⟨⟨not_rel_keep_left h hb.1.1, not_rel_keep_left h hb.1.2⟩,
    not_rel_keep_left hgt hb.2.1, not_rel_keep_left hgt hb.2.2⟩

theorem covers_union_right (h : WeaklyOrders (α := α) (· < ·) P) {b c : Box α}
    (hb : b.Satisfies P) (hc : c.Satisfies P) : (b.union c).Covers c := by
  have hgt : WeaklyOrders (α := α) (· > ·) P := h.swap
  exact ⟨⟨not_rel_keep_right h hb.1.1 hc.1.1, not_rel_keep_right h hb.1.2 hc.1.2⟩,
    not_rel_keep_right hgt hb.2.1 hc.2.1, not_rel_keep_right hgt hb.2.2 hc.2.2⟩

-- A box holds a point if it covers the box at that point.
theorem holds_single (h : WeaklyOrders (α := α) (· < ·) P) {p : Point α} (hp : p.Satisfies P) :
    (single p).Holds p :=
  covers_refl h (satisfies_single hp)

theorem holds_grow_self (h : WeaklyOrders (α := α) (· < ·) P) {b : Box α} {p : Point α}
    (hb : b.Satisfies P) (hp : p.Satisfies P) : (b.grow p).Holds p :=
  covers_union_right h hb (satisfies_single hp)

theorem Holds.grow (h : WeaklyOrders (α := α) (· < ·) P) {b : Box α} {p q : Point α}
    (hb : b.Satisfies P) (hp : p.Satisfies P) (hq : q.Satisfies P) (hold : b.Holds q) :
    (b.grow p).Holds q :=
  (covers_union_left h hb (single p)).trans h (satisfies_grow hb hp) hb (satisfies_single hq) hold

theorem holds_foldl_grow (h : WeaklyOrders (α := α) (· < ·) P) {b : Box α} {ps : List (Point α)}
    (hb : b.Satisfies P) (hps : ∀ p ∈ ps, p.Satisfies P) {q : Point α} (hq : q.Satisfies P)
    (hmem : b.Holds q ∨ q ∈ ps) : (ps.foldl grow b).Holds q := by
  induction ps generalizing b with
  | nil => exact hmem.resolve_right List.not_mem_nil
  | cons p ps ih =>
    have hp : p.Satisfies P := hps p List.mem_cons_self
    refine ih (satisfies_grow hb hp) (fun r hr => hps r (List.mem_cons_of_mem p hr)) ?_
    rcases hmem with hold | hmem
    · exact Or.inl (hold.grow h hb hp hq)
    · rcases List.mem_cons.mp hmem with rfl | htail
      · exact Or.inl (holds_grow_self h hb hq)
      · exact Or.inr htail

theorem holds_hull (h : WeaklyOrders (α := α) (· < ·) P) {p : Point α} {ps : List (Point α)}
    (hps : ∀ q ∈ p :: ps, q.Satisfies P) {q : Point α} (hq : q ∈ p :: ps) :
    (hull p ps).Holds q := by
  have hp : p.Satisfies P := hps p List.mem_cons_self
  refine holds_foldl_grow h (satisfies_single hp) (fun r hr => hps r (List.mem_cons_of_mem p hr))
    (hps q hq) ?_
  rcases List.mem_cons.mp hq with rfl | htail
  · exact Or.inl (holds_single h hp)
  · exact Or.inr htail

theorem holds_around? (h : WeaklyOrders (α := α) (· < ·) P) {ps : List (Point α)} {b : Box α}
    (hb : around? ps = some b) (hps : ∀ q ∈ ps, q.Satisfies P) {q : Point α} (hq : q ∈ ps) :
    b.Holds q := by
  cases ps with
  | nil => nomatch hb
  | cons p ps =>
    obtain rfl := Option.some.inj hb
    exact holds_hull h hps hq

theorem containsPoint_iff (b : Box α) (p : Point α) :
    b.containsPoint p = true ↔
      (b.low.x ≤ p.x ∧ b.low.y ≤ p.y) ∧ p.x ≤ b.high.x ∧ p.y ≤ b.high.y := by
  simp only [Box.containsPoint, Point.atMost, Bool.and_eq_true, decide_eq_true_eq]

theorem Holds.containsPoint (h : Ordered P) {b : Box α} {p : Point α} (hb : b.Satisfies P)
    (hp : p.Satisfies P) (hold : b.Holds p) : b.containsPoint p = true := by
  rcases hold with ⟨⟨hx, hy⟩, hx', hy'⟩
  rw [containsPoint_iff]
  exact ⟨⟨h.le_of_not_lt hb.1.1 hp.1 hx, h.le_of_not_lt hb.1.2 hp.2 hy⟩,
    h.le_of_not_lt hp.1 hb.2.1 hx', h.le_of_not_lt hp.2 hb.2.2 hy'⟩

/-! ## The least box -/

theorem TouchedBy.union {b c : Box α} {ps qs : List (Point α)} (hb : b.TouchedBy ps)
    (hc : c.TouchedBy qs) : (b.union c).TouchedBy (ps ++ qs) := by
  rw [union_eq]
  exact ⟨exists_keep Point.x hb.left hc.left, exists_keep Point.y hb.bottom hc.bottom,
    exists_keep (r := (· > ·)) Point.x hb.right hc.right,
    exists_keep (r := (· > ·)) Point.y hb.top hc.top⟩

theorem TouchedBy.grow {b : Box α} {ps : List (Point α)} (h : b.TouchedBy ps) (p : Point α) :
    (b.grow p).TouchedBy (ps ++ [p]) :=
  h.union (touchedBy_single p)

theorem TouchedBy.foldl_grow {b : Box α} {ps : List (Point α)} (h : b.TouchedBy ps)
    (qs : List (Point α)) : (qs.foldl Box.grow b).TouchedBy (ps ++ qs) := by
  induction qs generalizing b ps with
  | nil => rwa [List.append_nil]
  | cons q qs ih =>
    have hstep := ih (h.grow q)
    rwa [List.append_assoc] at hstep

theorem touchedBy_hull (p : Point α) (ps : List (Point α)) : (hull p ps).TouchedBy (p :: ps) :=
  (touchedBy_single p).foldl_grow ps

-- The points on the four sides are enough.
theorem TouchedBy.contains {b c : Box α} {ps : List (Point α)} (h : b.TouchedBy ps)
    (hc : ∀ p ∈ ps, c.containsPoint p = true) : c.contains b = true := by
  have hsides (p : Point α) (hp : p ∈ ps) :
      (c.low.x ≤ p.x ∧ c.low.y ≤ p.y) ∧ p.x ≤ c.high.x ∧ p.y ≤ c.high.y :=
    (containsPoint_iff c p).mp (hc p hp)
  rcases h.left with ⟨l, hl, hleft⟩
  rcases h.bottom with ⟨d, hd, hbottom⟩
  rcases h.right with ⟨r, hr, hright⟩
  rcases h.top with ⟨u, hu, htop⟩
  simp only [Box.contains, Box.containsPoint, Point.atMost, Bool.and_eq_true, decide_eq_true_eq,
    ← hleft, ← hbottom, ← hright, ← htop]
  exact ⟨⟨⟨(hsides l hl).1.1, (hsides d hd).1.2⟩, (hsides l hl).2.1, (hsides d hd).2.2⟩,
    ⟨(hsides r hr).1.1, (hsides u hu).1.2⟩, (hsides r hr).2.1, (hsides u hu).2.2⟩

end Box

end LSystem
