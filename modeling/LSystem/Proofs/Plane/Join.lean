import LSystem.Proofs.Plane.Box
import Mathlib.Order.Bounds.Defs

/-!
# Boxes as a semilattice

Containment orders the boxes whose corners are in order, and the union of two boxes is the least box that
contains both.  So the box around some points is the same however the points are ordered, cut into
groups and put together again (`boxes_join`).  The same means the same numbers: of numbers that
are level, such as the two zeros, different ones may be kept.
-/

namespace LSystem

variable {α : Type}

/-- A way to cut some points into groups, none of them empty, and to put the groups together again two
at a time. -/
inductive Grouping (α : Type) where
  | group (first : Point α) (rest : List (Point α))
  | both (left right : Grouping α)

namespace Grouping

/-- All the points, one group after another. -/
def points : Grouping α → List (Point α)
  | group p ps => p :: ps
  | both g g' => g.points ++ g'.points

/-- The box that comes of growing a box in each group and joining the boxes of the groups. -/
def box [Scalar α] : Grouping α → Box α
  | group p ps => Box.hull p ps
  | both g g' => g.box.union g'.box

end Grouping

-- Groups can be joined one after another, from either end, or in any other way.
example [Scalar α] (g g' g'' : Grouping α) :
    (List.foldl .both g [g', g'']).box = (g.box.union g'.box).union g''.box := rfl

namespace Box

variable [Scalar α]

/-- A box of ordered numbers whose corners are in order. -/
structure Upright (P : α → Prop) (b : Box α) : Prop where
  satisfies : b.Satisfies P
  inOrder : b.low.atMost b.high = true

/-- The numbers on all sides are equal. -/
def Same (b c : Box α) : Prop :=
  (b.low.x == c.low.x ∧ b.low.y == c.low.y) ∧ b.high.x == c.high.x ∧ b.high.y == c.high.y

/-- The sides of the box are the smallest and the largest coordinates of some points. -/
structure SpannedBy (b : Box α) (ps : List (Point α)) : Prop where
  left : IsLeast {a | ∃ p ∈ ps, p.x = a} b.low.x
  bottom : IsLeast {a | ∃ p ∈ ps, p.y = a} b.low.y
  right : IsGreatest {a | ∃ p ∈ ps, p.x = a} b.high.x
  top : IsGreatest {a | ∃ p ∈ ps, p.y = a} b.high.y

variable {P : α → Prop}

/-! ## Containment -/

theorem containsPoint_iff_holds (h : Coherent P) {b : Box α} {p : Point α} (hb : b.Satisfies P)
    (hp : p.Satisfies P) : b.containsPoint p = true ↔ b.Holds p := by
  rw [containsPoint_iff, h.le_iff hb.1.1 hp.1, h.le_iff hb.1.2 hp.2, h.le_iff hp.1 hb.2.1,
    h.le_iff hp.2 hb.2.2]
  rfl

theorem Upright.not_lt (h : Coherent P) {b : Box α} (hb : b.Upright P) :
    ¬ b.high.x < b.low.x ∧ ¬ b.high.y < b.low.y := by
  obtain ⟨hx, hy⟩ : b.low.x ≤ b.high.x ∧ b.low.y ≤ b.high.y := by
    simpa [Point.atMost] using hb.inOrder
  exact ⟨h.not_lt_of_le hb.satisfies.1.1 hb.satisfies.2.1 hx,
    h.not_lt_of_le hb.satisfies.1.2 hb.satisfies.2.2 hy⟩

theorem upright_of_not_lt (h : Coherent P) {b : Box α} (hb : b.Satisfies P)
    (hx : ¬ b.high.x < b.low.x) (hy : ¬ b.high.y < b.low.y) : b.Upright P := by
  refine ⟨hb, ?_⟩
  simp [Point.atMost, h.le_of_not_lt hb.1.1 hb.2.1 hx, h.le_of_not_lt hb.1.2 hb.2.2 hy]

/-- Only the sides of a box count for whether it is contained. -/
theorem contains_iff_covers (h : Coherent P) {b c : Box α} (hb : b.Satisfies P)
    (hc : c.Upright P) : b.contains c = true ↔ b.Covers c := by
  have hlow : c.low.Satisfies P := hc.satisfies.1
  have hhigh : c.high.Satisfies P := hc.satisfies.2
  obtain ⟨hx, hy⟩ := hc.not_lt h
  rw [Box.contains, Bool.and_eq_true, containsPoint_iff_holds h hb hlow,
    containsPoint_iff_holds h hb hhigh]
  constructor
  · rintro ⟨⟨hlows, -⟩, -, hhighs⟩
    exact ⟨hlows, hhighs⟩
  · rintro ⟨⟨hleft, hbottom⟩, hright, htop⟩
    -- Each corner is short of the far sides because the corner opposite is.
    refine ⟨⟨⟨hleft, hbottom⟩, ?_, ?_⟩, ⟨?_, ?_⟩, hright, htop⟩
    · exact h.weak.not_trans hb.2.1 hhigh.1 hlow.1 hright hx
    · exact h.weak.not_trans hb.2.2 hhigh.2 hlow.2 htop hy
    · exact h.weak.not_trans hhigh.1 hlow.1 hb.1.1 hx hleft
    · exact h.weak.not_trans hhigh.2 hlow.2 hb.1.2 hy hbottom

theorem same_iff_covers (h : Coherent P) {b c : Box α} (hb : b.Satisfies P)
    (hc : c.Satisfies P) : b.Same c ↔ b.Covers c ∧ c.Covers b := by
  rw [Same, h.beq_iff hb.1.1 hc.1.1, h.beq_iff hb.1.2 hc.1.2, h.beq_iff hb.2.1 hc.2.1,
    h.beq_iff hb.2.2 hc.2.2, Covers, Covers]
  tauto

theorem Same.containsPoint_iff (h : Coherent P) {b c : Box α} {p : Point α}
    (hb : b.Satisfies P) (hc : c.Satisfies P) (hp : p.Satisfies P) (hsame : b.Same c) :
    b.containsPoint p = true ↔ c.containsPoint p = true := by
  obtain ⟨hbc, hcb⟩ := (same_iff_covers h hb hc).mp hsame
  have hsingle : (single p).Satisfies P := satisfies_single hp
  rw [containsPoint_iff_holds h hb hp, containsPoint_iff_holds h hc hp]
  exact ⟨hcb.trans h.weak hc hb hsingle, hbc.trans h.weak hb hc hsingle⟩

/-! ## Unions -/

theorem upright_union (h : Coherent P) {b c : Box α} (hb : b.Upright P) (hc : c.Upright P) :
    (b.union c).Upright P := by
  have hunion : (b.union c).Satisfies P := satisfies_union hb.satisfies hc.satisfies
  obtain ⟨⟨hleft, hbottom⟩, hright, htop⟩ := covers_union_left h.weak hb.satisfies c
  obtain ⟨⟨hlowX, hlowY⟩, hhighX, hhighY⟩ := hb.satisfies
  obtain ⟨hx, hy⟩ := hb.not_lt h
  apply upright_of_not_lt h hunion
  · exact h.weak.not_trans hunion.2.1 hhighX hunion.1.1 hright
      (h.weak.not_trans hhighX hlowX hunion.1.1 hx hleft)
  · exact h.weak.not_trans hunion.2.2 hhighY hunion.1.2 htop
      (h.weak.not_trans hhighY hlowY hunion.1.2 hy hbottom)

-- The sides of a union go through the corners of its parts, so this needs no order.
theorem contains_union {b c d : Box α} (hb : d.contains b = true) (hc : d.contains c = true) :
    d.contains (b.union c) = true := by
  have htouched := (touchedBy_corners b).union (touchedBy_corners c)
  have hcorners : (d.containsPoint b.low = true ∧ d.containsPoint b.high = true) ∧
      d.containsPoint c.low = true ∧ d.containsPoint c.high = true := by
    simpa [Box.contains] using And.intro hb hc
  apply htouched.contains
  simp [hcorners]

/-! ## Boxes between the outermost coordinates -/

theorem SpannedBy.touchedBy {b : Box α} {ps : List (Point α)} (hb : b.SpannedBy ps) :
    b.TouchedBy ps :=
  ⟨hb.left.1, hb.bottom.1, hb.right.1, hb.top.1⟩

theorem TouchedBy.spannedBy {b : Box α} {ps : List (Point α)} (hb : b.TouchedBy ps)
    (hps : ∀ p ∈ ps, b.containsPoint p = true) : b.SpannedBy ps := by
  refine ⟨⟨hb.left, ?_⟩, ⟨hb.bottom, ?_⟩, ⟨hb.right, ?_⟩, ⟨hb.top, ?_⟩⟩ <;> rintro _ ⟨p, hp, rfl⟩
  · exact ((containsPoint_iff b p).mp (hps p hp)).1.1
  · exact ((containsPoint_iff b p).mp (hps p hp)).1.2
  · exact ((containsPoint_iff b p).mp (hps p hp)).2.1
  · exact ((containsPoint_iff b p).mp (hps p hp)).2.2

/-- The order of the points does not matter. -/
theorem SpannedBy.perm {b : Box α} {ps qs : List (Point α)} (hperm : ps.Perm qs)
    (hb : b.SpannedBy ps) : b.SpannedBy qs := by
  have hsides (side : Point α → α) :
      {a | ∃ p ∈ ps, side p = a} = {a | ∃ p ∈ qs, side p = a} := by
    simp only [hperm.mem_iff]
  exact ⟨hsides Point.x ▸ hb.left, hsides Point.y ▸ hb.bottom, hsides Point.x ▸ hb.right,
    hsides Point.y ▸ hb.top⟩

theorem SpannedBy.covers (h : Coherent P) {b c : Box α} {ps : List (Point α)}
    (hps : ∀ p ∈ ps, p.Satisfies P) (hb : b.SpannedBy ps) (hc : c.SpannedBy ps) : b.Covers c := by
  have hbP : b.Satisfies P := hb.touchedBy.satisfies hps
  have hcP : c.Satisfies P := hc.touchedBy.satisfies hps
  refine ⟨⟨?_, ?_⟩, ?_, ?_⟩
  · exact h.not_lt_of_le hbP.1.1 hcP.1.1 (hb.left.2 hc.left.1)
  · exact h.not_lt_of_le hbP.1.2 hcP.1.2 (hb.bottom.2 hc.bottom.1)
  · exact h.not_lt_of_le hcP.2.1 hbP.2.1 (hb.right.2 hc.right.1)
  · exact h.not_lt_of_le hcP.2.2 hbP.2.2 (hb.top.2 hc.top.1)

theorem SpannedBy.upright {b : Box α} {ps : List (Point α)} (hps : ∀ p ∈ ps, p.Satisfies P)
    (hb : b.SpannedBy ps) : b.Upright P := by
  refine ⟨hb.touchedBy.satisfies hps, ?_⟩
  simp [Point.atMost, hb.right.2 hb.left.1, hb.top.2 hb.bottom.1]

theorem SpannedBy.same (h : Coherent P) {b c : Box α} {ps : List (Point α)}
    (hps : ∀ p ∈ ps, p.Satisfies P) (hb : b.SpannedBy ps) (hc : c.SpannedBy ps) : b.Same c :=
  (same_iff_covers h (hb.touchedBy.satisfies hps) (hc.touchedBy.satisfies hps)).mpr
    ⟨hb.covers h hps hc, hc.covers h hps hb⟩

end Box

/-! ## Groups -/

namespace Grouping

variable [Scalar α] {P : α → Prop}

theorem touchedBy_box (g : Grouping α) : g.box.TouchedBy g.points := by
  induction g with
  | group p ps => exact Box.touchedBy_hull p ps
  | both g g' ih ih' => exact ih.union ih'

theorem holds_box (h : WeaklyOrders (α := α) (· < ·) P) {g : Grouping α}
    (hg : ∀ p ∈ g.points, p.Satisfies P) {p : Point α} (hp : p ∈ g.points) : g.box.Holds p := by
  induction g with
  | group q qs => exact Box.holds_hull h hg hp
  | both g g' ih ih' =>
    have hleft : ∀ p ∈ g.points, p.Satisfies P := fun p hp => hg p (List.mem_append_left _ hp)
    have hright : ∀ p ∈ g'.points, p.Satisfies P := fun p hp => hg p (List.mem_append_right _ hp)
    have hb : g.box.Satisfies P := g.touchedBy_box.satisfies hleft
    have hc : g'.box.Satisfies P := g'.touchedBy_box.satisfies hright
    have hsingle : (Box.single p).Satisfies P := Box.satisfies_single (hg p hp)
    have hunion : (g.box.union g'.box).Satisfies P := Box.satisfies_union hb hc
    -- Holding a point is covering the box of that point alone, and covering is transitive.
    rcases List.mem_append.mp hp with hmem | hmem
    · exact (Box.covers_union_left h hb g'.box).trans h hunion hb hsingle (ih hleft hmem)
    · exact (Box.covers_union_right h hb hc).trans h hunion hc hsingle (ih' hright hmem)

theorem spannedBy_box (h : Coherent P) (g : Grouping α) (hg : ∀ p ∈ g.points, p.Satisfies P) :
    g.box.SpannedBy g.points := by
  have hbox : g.box.Satisfies P := g.touchedBy_box.satisfies hg
  apply g.touchedBy_box.spannedBy
  intro p hp
  exact (holds_box h.weak hg hp).containsPoint h.toOrdered hbox (hg p hp)

end Grouping

/-! ## The semilattice -/

namespace Box

variable [Scalar α] {P : α → Prop}

/-- Where the numbers are ordered, containment is an order on the boxes whose corners are in order, but
for equal numbers on the sides, and a union is the least box that contains both of its parts.  Whatever
the order and the groups in which some points are taken, and however the groups are put together,
the box around them has the same numbers on its sides, which are the smallest and the largest
coordinates of the points; so it contains just the points that lie between these. -/
theorem boxes_join (h : Coherent P) :
    (∀ b c : Box α, b.Upright P → c.Upright P →
      (b.union c).Upright P ∧ (b.union c).contains b = true ∧ (b.union c).contains c = true ∧
        ∀ d : Box α, d.contains b = true → d.contains c = true → d.contains (b.union c) = true) ∧
    (∀ b : Box α, b.Upright P → b.contains b = true) ∧
    (∀ b c d : Box α, b.Upright P → c.Upright P → d.Upright P →
      b.contains c = true → c.contains d = true → b.contains d = true) ∧
    (∀ b c : Box α, b.Upright P → c.Upright P →
      b.contains c = true → c.contains b = true → b.Same c) ∧
    ∀ ps : List (Point α), (∀ p ∈ ps, p.Satisfies P) → ∀ g : Grouping α, g.points.Perm ps →
      g.box.Upright P ∧ g.box.SpannedBy ps ∧
        (∀ g' : Grouping α, g'.points.Perm ps → g.box.Same g'.box) ∧
        ∀ b : Box α, b.SpannedBy ps → ∀ q : Point α, q.Satisfies P →
          (g.box.containsPoint q = true ↔
            (b.low.x ≤ q.x ∧ b.low.y ≤ q.y) ∧ q.x ≤ b.high.x ∧ q.y ≤ b.high.y) := by
  refine ⟨fun b c hb hc ↦ ?_, fun b hb ↦ ?_, fun b c d hb hc hd hbc hcd ↦ ?_,
    fun b c hb hc hbc hcb ↦ ?_, fun ps hps g hg ↦ ?_⟩
  · have hunion : (b.union c).Satisfies P := satisfies_union hb.satisfies hc.satisfies
    refine ⟨upright_union h hb hc, ?_, ?_, fun d ↦ contains_union⟩
    · rw [contains_iff_covers h hunion hb]
      exact covers_union_left h.weak hb.satisfies c
    · rw [contains_iff_covers h hunion hc]
      exact covers_union_right h.weak hb.satisfies hc.satisfies
  · rw [contains_iff_covers h hb.satisfies hb]
    exact covers_refl h.weak hb.satisfies
  · rw [contains_iff_covers h hb.satisfies hc] at hbc
    rw [contains_iff_covers h hc.satisfies hd] at hcd
    rw [contains_iff_covers h hb.satisfies hd]
    exact hbc.trans h.weak hb.satisfies hc.satisfies hd.satisfies hcd
  · rw [contains_iff_covers h hb.satisfies hc] at hbc
    rw [contains_iff_covers h hc.satisfies hb] at hcb
    exact (same_iff_covers h hb.satisfies hc.satisfies).mpr ⟨hbc, hcb⟩
  · have hspanned (g : Grouping α) (hg : g.points.Perm ps) : g.box.SpannedBy ps := by
      have hpoints : ∀ p ∈ g.points, p.Satisfies P := fun p hp ↦ hps p (hg.mem_iff.mp hp)
      exact (g.spannedBy_box h hpoints).perm hg
    have hbox : g.box.SpannedBy ps := hspanned g hg
    refine ⟨hbox.upright hps, hbox, fun g' hg' ↦ hbox.same h hps (hspanned g' hg'),
      fun b hb q hq ↦ ?_⟩
    have hsame : g.box.Same b := hbox.same h hps hb
    rw [hsame.containsPoint_iff h (hbox.touchedBy.satisfies hps) (hb.touchedBy.satisfies hps) hq,
      containsPoint_iff]

theorem boxes_join_zeros :
    let ps : List (Point Float) := [⟨0.0, 1.0⟩, ⟨-0.0, 2.0⟩, ⟨3.0, -1.0⟩]
    let g : Grouping Float := .both (.group ⟨3.0, -1.0⟩ []) (.group ⟨-0.0, 2.0⟩ [⟨0.0, 1.0⟩])
    let g' : Grouping Float := .group ⟨0.0, 1.0⟩ [⟨-0.0, 2.0⟩, ⟨3.0, -1.0⟩]
    let b : Box Float := ⟨⟨0.0, -1.0⟩, ⟨3.0, 2.0⟩⟩
    Coherent (fun x : Float ↦ x.isNaN = false) ∧ b.Upright (fun x ↦ x.isNaN = false) ∧
      (∀ p ∈ ps, p.Satisfies (fun x ↦ x.isNaN = false)) ∧ g.points.Perm ps ∧ g'.points.Perm ps ∧
      b.contains b = true ∧ g.box.Same g'.box ∧ g.box ≠ g'.box := by
  intro ps g g' b
  have hps : ∀ p ∈ ps, p.Satisfies (fun x ↦ x.isNaN = false) := by decide +kernel
  have hb : b.Upright (fun x ↦ x.isNaN = false) := ⟨by decide +kernel, by decide +kernel⟩
  have hg : g.points.Perm ps := by decide +kernel
  have hg' : g'.points.Perm ps := by decide +kernel
  obtain ⟨-, hrefl, -, -, hgroups⟩ := boxes_join coherent_double
  obtain ⟨-, -, hsame, -⟩ := hgroups ps hps g hg
  exact ⟨coherent_double, hb, hps, hg, hg', hrefl b hb, hsame g' hg', by decide +kernel⟩

end Box

end LSystem
