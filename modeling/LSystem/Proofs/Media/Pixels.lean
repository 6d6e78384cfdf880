import LSystem.Proofs.Media.Canvas
import LSystem.Proofs.Number.Whole

/-!
# What falls in a pixel

A sample falls in a column and in a row, each found from one coordinate alone.  Over the doubles, a
number falls in the column or row that it is in, and on the canvas a number outside paints nothing; but
what is no number falls in column and row zero (`covers_draw`), so a heading without a direction
leaves a mark in the corner of the canvas (`painted_without_sample`).
-/

namespace LSystem

namespace Canvas

/-! ## Columns and rows -/

section Places

variable {α : Type} [Scalar α]

/-- The column or row that a coordinate falls in. -/
def place? (a : α) : Option Nat :=
  let whole := Scalar.floor a
  if whole < 0.0 then none else some (Scalar.wholePart 0 maxCoordinate whole).toNat

theorem pixelOf?_eq_some_iff (p : Point α) (x y : Nat) :
    pixelOf? p = some (x, y) ↔ place? p.x = some x ∧ place? p.y = some y := by
  unfold pixelOf? place?
  by_cases hx : Scalar.floor p.x < (0.0 : α) <;> by_cases hy : Scalar.floor p.y < (0.0 : α) <;>
    simp [hx, hy]

/-- Pixels that are not on the canvas do not matter. -/
theorem Covers.congr_inside {A B : Nat → Nat → Prop} {ink : Color} {c d : Canvas}
    (h : Covers A ink c d) (hAB : ∀ x y, x < c.width → y < c.height → (A x y ↔ B x y)) :
    Covers B ink c d := by
  have hoff (x y : Nat) (hxy : ¬ (x < c.width ∧ y < c.height)) :
      d.pixel? x y = none ∧ c.pixel? x y = none := by
    refine ⟨?_, if_neg hxy⟩
    rw [← h.width, ← h.height] at hxy
    exact if_neg hxy
  refine ⟨h.width, h.height, ?_, ?_⟩
  · intro x y hB
    by_cases hxy : x < c.width ∧ y < c.height
    · exact h.inside ((hAB x y hxy.1 hxy.2).mpr hB)
    · rw [(hoff x y hxy).1, (hoff x y hxy).2]
      rfl
  · intro x y hB
    by_cases hxy : x < c.width ∧ y < c.height
    · exact h.outside ((hAB x y hxy.1 hxy.2).not.mpr hB)
    · rw [(hoff x y hxy).1, (hoff x y hxy).2]

section Landing

variable {lands : α → Nat → Prop}
  (hlands : ∀ a k, k < 2 ^ 32 - 1 → (place? a = some k ↔ lands a k)) {c : Canvas}
  (hwidth : c.width < 2 ^ 32) (hheight : c.height < 2 ^ 32)

include hlands hwidth hheight

theorem covers_plot_lands (ink : Color) (p : Point α) :
    Covers (fun x y ↦ lands p.x x ∧ lands p.y y) ink c (c.plot ink p) := by
  refine (covers_plot c ink p).congr_inside fun x y hx hy ↦ ?_
  rw [pixelOf?_eq_some_iff, hlands p.x x (by omega), hlands p.y y (by omega)]

/-- A line covers the pixels that its samples land in. -/
theorem covers_line (viewport : Viewport α) (ink : Color) (s : Segment α) :
    Covers (fun x y ↦ ∃ p ∈ samples viewport s, lands p.x x ∧ lands p.y y) ink c
      (c.line viewport ink s.source s.target) := by
  rw [line_eq_foldl]
  refine (Covers.foldl (fun c p ↦ covers_plot c ink p) (samples viewport s) c).congr_inside
    fun x y hx hy ↦ ?_
  simp only [pixelOf?_eq_some_iff, hlands _ x (by omega), hlands _ y (by omega)]

end Landing

end Places

/-! ## Doubles -/

section Doubles

open Number

/-- The coordinates of a column or row, as comparisons of doubles. -/
def IsIn (k : Nat) (a : Float) : Prop := Float.ofNat k ≤ a ∧ a < Float.ofNat (k + 1)

instance (k : Nat) : DecidablePred (IsIn k) := fun a ↦
  inferInstanceAs (Decidable (Float.ofNat k ≤ a ∧ a < Float.ofNat (k + 1)))

/-- What is no number lands in the first column and row, beside what is in a column or row. -/
def Lands (a : Float) (k : Nat) : Prop := IsIn k a ∨ a.isNaN = true ∧ k = 0

theorem isIn_iff {a : Float} {q : ℚ} {k : Nat} (h : value? a = some q) (hk : k + 1 < 2 ^ 53) :
    IsIn k a ↔ ⌊q⌋ = k := by
  unfold IsIn
  rw [le_iff_value (value?_ofNat (by omega)) h, lt_iff_value h (value?_ofNat hk), Int.floor_eq_iff]
  push_cast
  rfl

theorem not_isIn_of_isNaN {a : Float} (h : a.isNaN = true) (k : Nat) : ¬ IsIn k a :=
  fun hin ↦ not_lt_of_isNaN h _ hin.2

/-- On an extent of a canvas, as comparisons of doubles. -/
def IsOn (extent : Nat) (a : Float) : Prop := Float.ofNat 0 ≤ a ∧ a < Float.ofNat extent

instance (extent : Nat) : DecidablePred (IsOn extent) := fun a ↦
  inferInstanceAs (Decidable (Float.ofNat 0 ≤ a ∧ a < Float.ofNat extent))

/-- A number that is not on the canvas lands nowhere on it. -/
theorem not_lands_of_not_isOn {a : Float} {k extent : Nat} (hnumber : a.isNaN = false)
    (ha : ¬ IsOn extent a) (hk : k < extent) (hextent : extent < 2 ^ 32) : ¬ Lands a k := by
  have hwhole {n : Nat} (hn : n ≤ extent) : value? (Float.ofNat n) = some (n : ℚ) :=
    value?_ofNat (by omega)
  have hrank {m n : Nat} (hmn : m ≤ n) (hn : n ≤ extent) :
      rank (Float.ofNat m).toModel.unpack ≤ rank (Float.ofNat n).toModel.unpack := by
    have hm := hwhole (hmn.trans hn)
    rw [← double_le_iff (isNaN_of_value? hm) (isNaN_of_value? (hwhole hn)),
      le_iff_value hm (hwhole hn)]
    exact_mod_cast hmn
  rintro (hin | hnan)
  · apply ha
    unfold IsIn at hin
    unfold IsOn
    rw [double_le_iff (isNaN_of_value? (hwhole (by omega))) hnumber,
      double_lt_iff hnumber (isNaN_of_value? (hwhole (by omega)))] at hin ⊢
    exact ⟨(hrank (Nat.zero_le k) hk.le).trans hin.1, hin.2.trans_le (hrank hk le_rfl)⟩
  · rw [hnumber] at hnan
    nomatch hnan.1

variable {floor : Float → Float} (hfloor : IsFloor floor) (ceil round : Float → Float)
  (direction : Float → Float × Float)

include hfloor

theorem place?_double (a : Float) (k : Nat) (hk : k < 2 ^ 32 - 1) :
    @place? _ (.doubles floor ceil round direction) a = some k ↔ Lands a k := by
  have hmax : maxCoordinate = 2 ^ 32 - 1 := rfl
  have hplace : @place? _ (.doubles floor ceil round direction) a =
      if floor a < 0.0 then none
      else some ((Binary64.ofFloat (floor a)).wholePart 0 maxCoordinate).toNat := rfl
  rw [hplace]
  cases ha : Binary64.ofFloat a with
  | finite negative m e =>
    obtain ⟨q, hq⟩ : ∃ q, value? a = some q := by
      unfold value?
      rw [ha]
      exact ⟨_, rfl⟩
    have hnumber : a.isNaN = false := isNaN_of_value? hq
    have hwhole := hfloor.value hq
    have hneg : floor a < 0.0 ↔ ⌊q⌋ < 0 := by
      rw [lt_iff_value hwhole value?_zero]
      exact_mod_cast Iff.rfl
    -- No column that counts is as far as the bound of the cast.
    rw [Lands, isIn_iff hq (by omega), wholePart_of_value? hwhole, hnumber]
    simp only [hneg, Int.floor_intCast, Int.ceil_intCast, ite_self, hmax]
    split_ifs <;> simp <;> omega
  | infinite negative =>
    have hnumber : ¬ a.isNaN = true := by
      rw [isNaN_iff, ha]
      nofun
    have hout (h : ¬ IsIn k a) : ¬ Lands a k := not_or.mpr ⟨h, fun hnan ↦ hnumber hnan.1⟩
    rw [hfloor.infinite ha]
    cases negative with
    | true =>
      have hbelow := (lt_of_negative_infinite ha value?_zero).1
      rw [if_pos hbelow]
      refine iff_of_false nofun (hout fun hin ↦ ?_)
      exact (lt_of_negative_infinite ha (value?_ofNat (by omega))).2 hin.1
    | false =>
      have hbelow := not_lt_of_positive_infinite ha value?_zero
      have hfar : ((Binary64.infinite false).wholePart 0 maxCoordinate).toNat = 2 ^ 32 - 1 := rfl
      rw [if_neg hbelow, ha, hfar]
      refine iff_of_false (by simp; omega) (hout fun hin ↦ ?_)
      exact not_lt_of_positive_infinite ha (value?_ofNat (by omega)) hin.2
  | nan =>
    have hnan : a.isNaN = true := isNaN_iff.mpr ha
    have hbelow := not_lt_of_isNaN (hfloor.isNaN hnan) 0.0
    have hfirst : (Binary64.nan.wholePart 0 maxCoordinate).toNat = 0 := rfl
    rw [if_neg hbelow, isNaN_iff.mp (hfloor.isNaN hnan), hfirst, Option.some_inj, eq_comm]
    exact ⟨fun hk ↦ Or.inr ⟨hnan, hk⟩, fun h ↦ (h.resolve_left (not_isIn_of_isNaN hnan k)).2⟩

/-! ## Drawing -/

/-- A draw covers the pixels that its samples land in.  So if the samples are numbers, it covers just
the pixels that samples are in; and a number that is not on the canvas, such as an infinity, paints
nothing. -/
theorem covers_draw (t : Turtle (Raster Float) Float) (hwidth : t.medium.canvas.width < 2 ^ 32)
    (hheight : t.medium.canvas.height < 2 ^ 32) :
    letI := Scalar.doubles floor ceil round direction
    let canvas := t.medium.canvas
    let drawn := samples t.medium.viewport ⟨t.pen.position, t.draw.pen.position⟩
    Covers (fun x y ↦ ∃ p ∈ drawn, Lands p.x x ∧ Lands p.y y) t.medium.ink canvas
        t.draw.medium.canvas ∧
      ((∀ p ∈ drawn, p.x.isNaN = false ∧ p.y.isNaN = false) →
        Covers (fun x y ↦ ∃ p ∈ drawn, IsIn x p.x ∧ IsIn y p.y) t.medium.ink canvas
          t.draw.medium.canvas) ∧
      ∀ p : Point Float, p.x.isNaN = false ∧ ¬ IsOn canvas.width p.x ∨
          p.y.isNaN = false ∧ ¬ IsOn canvas.height p.y → canvas.plot t.medium.ink p = canvas := by
  let := Scalar.doubles floor ceil round direction
  intro canvas drawn
  have hplace := place?_double hfloor ceil round direction
  have hcovers := covers_line hplace hwidth hheight t.medium.viewport t.medium.ink
    ⟨t.pen.position, t.draw.pen.position⟩
  refine ⟨hcovers, ?_, ?_⟩
  · intro hnumbers
    refine hcovers.congr fun x y ↦ exists_congr fun p ↦ and_congr_right fun hp ↦ ?_
    have hlands {a : Float} (ha : a.isNaN = false) (k : Nat) : Lands a k ↔ IsIn k a :=
      or_iff_left fun hnan ↦ by
        rw [ha] at hnan
        nomatch hnan.1
    rw [hlands (hnumbers p hp).1, hlands (hnumbers p hp).2]
  · intro p hp
    have hplot := covers_plot_lands hplace hwidth hheight t.medium.ink p
    refine (hplot.congr_inside fun x y hx hy ↦ ?_).unique (Covers.nothing t.medium.ink canvas)
    rw [iff_false]
    rintro ⟨hcolumn, hrow⟩
    rcases hp with ⟨hnumber, hout⟩ | ⟨hnumber, hout⟩
    · exact not_lands_of_not_isOn hnumber hout hx hwidth hcolumn
    · exact not_lands_of_not_isOn hnumber hout hy hheight hrow

end Doubles

section Runs

open Number

/-- Headings as if all of them pointed to the right; one that is not finite has no direction. -/
def levelDirection (degrees : Float) : Float × Float :=
  if degrees.isFinite then (1.0, 0.0) else (0.0 / 0.0, 0.0 / 0.0)

theorem covers_draw_level :
    let _ : Scalar Float := .doubles roundDown (fun x ↦ -roundDown (-x)) id levelDirection
    let blank : Turtle (Raster Float) Float :=
      .on ⟨.blank 4 4 .white, .identity 4.0 4.0, .black⟩
    let t := blank.place ⟨⟨0.5, 0.5⟩, 0.0⟩
    (t.medium.canvas.width < 2 ^ 32 ∧ t.medium.canvas.height < 2 ^ 32) ∧
      t.draw.medium.canvas.pixel? 1 3 = some .black ∧
      t.medium.canvas.plot t.medium.ink ⟨1.0 / 0.0, 0.5⟩ = t.medium.canvas := by
  intro _ blank t
  have hwidth : t.medium.canvas.width < 2 ^ 32 := by decide
  have hheight : t.medium.canvas.height < 2 ^ 32 := by decide
  obtain ⟨-, hpainted, hclipped⟩ :=
    covers_draw isFloor_roundDown (fun x ↦ -roundDown (-x)) id levelDirection t hwidth hheight
  have hcovers := hpainted (by decide +kernel)
  refine ⟨⟨hwidth, hheight⟩, ?_, hclipped _ ?_⟩
  · have hsample : ∃ p ∈ samples t.medium.viewport ⟨t.pen.position, t.draw.pen.position⟩,
        IsIn 1 p.x ∧ IsIn 3 p.y := by decide +kernel
    rw [hcovers.inside hsample]
    rfl
  · exact Or.inl (by decide +kernel)

/-- A heading that has no direction leads to samples that are no numbers.  They are in no pixel, but
paint one. -/
theorem painted_without_sample :
    let _ : Scalar Float := .doubles roundDown (fun x ↦ -roundDown (-x)) id levelDirection
    let blank : Turtle (Raster Float) Float :=
      .on ⟨.blank 4 4 .white, .identity 4.0 4.0, .black⟩
    let t := ((blank.setUnits 1.0 1e308).turnLeft).turnLeft
    t.medium.canvas.pixel? 0 0 = some .white ∧ t.draw.medium.canvas.pixel? 0 0 = some .black ∧
      ∀ p ∈ samples t.medium.viewport ⟨t.pen.position, t.draw.pen.position⟩,
        ¬ (IsIn 0 p.x ∧ IsIn 0 p.y) := by
  decide +kernel

end Runs

end Canvas

end LSystem
