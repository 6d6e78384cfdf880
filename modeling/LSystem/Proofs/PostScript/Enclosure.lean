import LSystem.Proofs.Number.Decimal
import LSystem.Proofs.Plane.Fitting
import LSystem.Proofs.PostScript.Prologue

/-!
# The box of a page

A page names a box of whole numbers in a comment, for whoever places it.  The box is made from the box of
the drawing by mapping, padding, rounding to thousandths and rounding to whole numbers.  Although the
thousandths may be on the inner side, no stroke ever reaches over the box, but for the far end of the
range of whole numbers that are written (`encloses_stroke_iff`).
-/

namespace LSystem

/-- A box that reaches farther on all sides. -/
def Box.padded {K : Type} [Field K] (b : Box K) (r : K) : Box K :=
  ⟨⟨b.low.x - r, b.low.y - r⟩, ⟨b.high.x + r, b.high.y + r⟩⟩

namespace PostScript

open Number (decimal?)

/-! ## Reading the box -/

section Reading

variable {K : Type} [Field K]

/-- The box that a document names in its comments. -/
def boundingBox? (ls : List String) : Option (Box K) :=
  match (comment? "%%BoundingBox: " ls).map words with
  | some [left, bottom, right, top] =>
    match decimal? left, decimal? bottom, decimal? right, decimal? top with
    | some l, some b, some r, some t => some ⟨⟨l, b⟩, ⟨r, t⟩⟩
    | _, _, _, _ => none
  | _ => none

theorem words_integers {is : List ℤ} (hne : is ≠ []) :
    words (spaced (is.map toString)) = is.map toString := by
  apply words_spaced_of _ (by simpa using hne)
  intro w hw
  rcases List.mem_map.mp hw with ⟨i, -, rfl⟩
  have hnumeral : isNumeral (toString i) = true := isNumeral_toString i
  exact ⟨word_ne_empty (t := .numeral (toString i)) hnumeral, not_mem_numeral hnumeral (Or.inl rfl)⟩

variable {α : Type} [Scalar α]

theorem comment?_prologue (title : String) (bounds : Box α) (viewport : Viewport α)
    (lineWidth : α) :
    comment? "%%BoundingBox: " (lines (prologue title bounds viewport lineWidth)) =
      some (spaced ((integerCorners (pageBox bounds viewport lineWidth)).map toString)) := by
  have htitle : ("%%Title: (" ++ literal title ++ ")").toList.dropPrefix?
      "%%BoundingBox: ".toList = none := by
    rw [String.toList_append, String.toList_append]
    rfl
  have hcreator : ("%%Creator: (" ++ creator ++ ")").toList.dropPrefix?
      "%%BoundingBox: ".toList = none := by decide
  rw [lines_prologue]
  unfold prologueLines
  simp only [List.cons_append]
  rw [comment?_cons_of_none (by decide), comment?_cons_of_none htitle,
    comment?_cons_of_none hcreator, comment?_cons_key]

variable [LinearOrder K] [IsStrictOrderedRing K]

/-- The box is read back as it is written. -/
theorem boundingBox?_prologue (title : String) {bounds : Box α} {viewport : Viewport α}
    {lineWidth : α} {left bottom right top : ℤ}
    (h : integerCorners (pageBox bounds viewport lineWidth) = [left, bottom, right, top]) :
    boundingBox? (lines (prologue title bounds viewport lineWidth)) =
      some (⟨⟨left, bottom⟩, ⟨right, top⟩⟩ : Box K) := by
  unfold boundingBox?
  rw [comment?_prologue, h, Option.map_some, words_integers (by simp)]
  simp only [List.map_cons, List.map_nil, Number.decimal?_toString]

end Reading

/-! ## Sides -/

section Exact

/-- The whole number that is written for a left or a lower side. -/
def lowerSide {α : Type} [Scalar α] (a : α) : ℤ :=
  Scalar.wholePart minInteger maxInteger (Scalar.floor (snap a))

/-- The whole number that is written for a right or an upper side. -/
def upperSide {α : Type} [Scalar α] (a : α) : ℤ :=
  Scalar.wholePart minInteger maxInteger (Scalar.ceil (snap a))

variable {K : Type} [Field K]

theorem cast_minInteger : ((minInteger : ℤ) : K) = -2 ^ 63 := by
  have hmin : minInteger = -2 ^ 63 := rfl
  rw [hmin, Int.cast_neg, Int.cast_pow, Int.cast_ofNat]

theorem cast_maxInteger : ((maxInteger : ℤ) : K) = 2 ^ 63 - 1 := by
  have hmax : maxInteger = 2 ^ 63 - 1 := rfl
  rw [hmax, Int.cast_sub, Int.cast_pow, Int.cast_ofNat, Int.cast_one]

variable [LinearOrder K] [IsStrictOrderedRing K] [FloorRing K] (direction : K → K × K)
  (sqrt : K → K)

/-- Whole numbers beyond the range are written as its nearest end. -/
theorem wholePart_intCast_exact (i : ℤ) :
    letI := Scalar.exact K direction sqrt
    (Scalar.wholePart minInteger maxInteger (i : K) : K) = max (-2 ^ 63) (min (2 ^ 63 - 1) (i : K)) := by
  let := Scalar.exact K direction sqrt
  show ((max minInteger (min maxInteger (if (0 : K) ≤ i then ⌊(i : K)⌋ else ⌈(i : K)⌉)) : ℤ) : K) = _
  rw [Int.floor_intCast, Int.ceil_intCast, ite_self, Int.cast_max, Int.cast_min, cast_minInteger,
    cast_maxInteger]

theorem abs_round_sub_le (a : K) :
    letI := Scalar.exact K direction sqrt
    |Scalar.round a - a| ≤ 1 / 2 := by
  let := Scalar.exact K direction sqrt
  show |(if 0 ≤ a then (⌊a + 2⁻¹⌋ : K) else ⌈a - 2⁻¹⌉) - a| ≤ 1 / 2
  split_ifs with ha
  · have hle := Int.floor_le (a + 2⁻¹)
    have hlt := Int.lt_floor_add_one (a + 2⁻¹)
    rw [abs_le]
    constructor <;> linarith
  · have hle := Int.le_ceil (a - 2⁻¹)
    have hlt := Int.ceil_lt_add_one (a - 2⁻¹)
    rw [abs_le]
    constructor <;> linarith

theorem abs_snap_sub_le (a : K) :
    letI := Scalar.exact K direction sqrt
    |snap a - a| ≤ 1 / 2000 := by
  let := Scalar.exact K direction sqrt
  have hthousand : (1e3 : K) = 1000 := by
    show (OfScientific.ofScientific 1 false 3 : K) = 1000
    norm_num
  have hround := abs_le.mp (abs_round_sub_le direction sqrt (a * 1000))
  have hsnap : snap a = Scalar.round (a * 1000) / 1000 := by
    rw [snap, hthousand]
  rw [hsnap, abs_le]
  constructor <;> linarith

theorem lowerSide_le {a c : K} (hrange : -2 ^ 63 ≤ c) (hac : a + 1 / 2000 ≤ c) :
    (@lowerSide K (.exact K direction sqrt) a : K) ≤ c := by
  let := Scalar.exact K direction sqrt
  have hsnap : snap a ≤ c := by linarith [(abs_le.mp (abs_snap_sub_le direction sqrt a)).2]
  have hside : (lowerSide a : K) = max (-2 ^ 63) (min (2 ^ 63 - 1) (⌊snap a⌋ : K)) :=
    wholePart_intCast_exact direction sqrt ⌊snap a⌋
  rw [hside]
  exact max_le hrange ((min_le_right _ _).trans ((Int.floor_le _).trans hsnap))

theorem le_upperSide_iff {a c : K} (hca : c + 1 / 2000 ≤ a) :
    c ≤ (@upperSide K (.exact K direction sqrt) a : K) ↔ c ≤ 2 ^ 63 - 1 := by
  let := Scalar.exact K direction sqrt
  have hsnap : c ≤ snap a := by linarith [(abs_le.mp (abs_snap_sub_le direction sqrt a)).1]
  have hside : (upperSide a : K) = max (-2 ^ 63) (min (2 ^ 63 - 1) (⌈snap a⌉ : K)) :=
    wholePart_intCast_exact direction sqrt ⌈snap a⌉
  rw [hside]
  -- What is written is too small only where it is the largest number there is.
  constructor
  · intro hc
    exact hc.trans (max_le (by norm_num) (min_le_left _ _))
  · intro hc
    exact le_max_of_le_right (le_min hc (hsnap.trans (Int.le_ceil _)))

/-- Half a line width is left of the padding, which is more than rounding takes from it. -/
theorem encloses_side_iff {low high a w : K} (hlow : low ≤ a) (hhigh : a ≤ high)
    (hw : 1 / 1000 ≤ w) (hrange : -2 ^ 63 ≤ low - w) :
    letI := Scalar.exact K direction sqrt
    (lowerSide (low - w) : K) ≤ a - w / 2 ∧
      (a + w / 2 ≤ (upperSide (high + w) : K) ↔ a + w / 2 ≤ 2 ^ 63 - 1) := by
  constructor
  · exact lowerSide_le direction sqrt (by linarith) (by linarith)
  · exact le_upperSide_iff direction sqrt (by linarith)

/-! ## Strokes -/

/-- The box of whole numbers on a page encloses the strokes at all points of the drawing, up to the
largest number that can be written: half a line width around a point of the drawing is inside exactly
if it does not reach over that number, as long as the padded box of the drawing is in range. -/
theorem encloses_stroke_iff (title : String) {b : Box K} (hx : b.low.x ≤ b.high.x)
    (hy : b.low.y ≤ b.high.y) {v : Viewport K} (hscale : 0 < v.scale) {w : K}
    (hw : 1 / 1000 ≤ w) :
    letI := Scalar.exact K direction sqrt
    ((v.mapBox b).padded w).Satisfies (fun a ↦ |a| < 2 ^ 63) →
    ∃ box : Box K, boundingBox? (lines (prologue title b v w)) = some box ∧
      ∀ p, b.containsPoint p = true →
        let stroke := (Box.single (v.toSurface p)).padded (w / 2)
        (box.contains stroke = true ↔ stroke.high.Satisfies (· ≤ 2 ^ 63 - 1)) := by
  let := Scalar.exact K direction sqrt
  intro hpage
  have hmapped : v.mapBox b = ⟨v.toSurface b.low, v.toSurface b.high⟩ :=
    mapBox_exact direction sqrt hx hy v hscale.le
  have hcorners : integerCorners (pageBox b v w) =
      [lowerSide ((v.toSurface b.low).x - w), lowerSide ((v.toSurface b.low).y - w),
        upperSide ((v.toSurface b.high).x + w), upperSide ((v.toSurface b.high).y + w)] := by
    rw [pageBox, hmapped]
    rfl
  refine ⟨_, boundingBox?_prologue title hcorners, fun p hp ↦ ?_⟩
  intro stroke
  rw [hmapped] at hpage
  obtain ⟨⟨hleft, hbottom⟩, hright, htop⟩ := (containsPoint_exact direction sqrt b p).mp hp
  have hcolumns := encloses_side_iff direction sqrt (stretched_le hscale.le v.translation.x hleft)
    (stretched_le hscale.le v.translation.x hright) hw (abs_lt.mp hpage.1.1).1.le
  have hrows := encloses_side_iff direction sqrt (stretched_le hscale.le v.translation.y hbottom)
    (stretched_le hscale.le v.translation.y htop) hw (abs_lt.mp hpage.1.2).1.le
  -- A stroke is a box in order, so only the sides of the two boxes have to be compared.
  have horder (a : K) : a - w / 2 ≤ a + w / 2 := by linarith
  rw [contains_exact direction sqrt _ (horder _) (horder _)]
  constructor
  · rintro ⟨-, hhigh⟩
    exact ⟨hcolumns.2.mp hhigh.1, hrows.2.mp hhigh.2⟩
  · rintro ⟨hhighX, hhighY⟩
    exact ⟨⟨hcolumns.1, hrows.1⟩, hcolumns.2.mpr hhighX, hrows.2.mpr hhighY⟩

theorem encloses_stroke_iff_corner :
    let _ : Scalar ℚ := .exact ℚ quarterTurn id
    let b : Box ℚ := ⟨⟨0, 0⟩, ⟨7, 3⟩⟩
    let v := Viewport.fit b 612 792 36
    let stroke := (Box.single (v.toSurface b.high)).padded (1 / 2)
    (b.low.x ≤ b.high.x ∧ b.low.y ≤ b.high.y ∧ 0 < v.scale ∧ (1 / 1000 : ℚ) ≤ 1 ∧
      ((v.mapBox b).padded 1).Satisfies (fun a ↦ |a| < 2 ^ 63) ∧ b.containsPoint b.high = true) ∧
      ∃ box, boundingBox? (lines (prologue "" b v 1)) = some box ∧ box.contains stroke = true := by
  intro _ b v stroke
  have hx : b.low.x ≤ b.high.x := by decide
  have hy : b.low.y ≤ b.high.y := by decide
  have hscale : 0 < v.scale := by decide +kernel
  have hw : (1 / 1000 : ℚ) ≤ 1 := by norm_num
  have hpage : ((v.mapBox b).padded 1).Satisfies (fun a ↦ |a| < 2 ^ 63) := by decide +kernel
  have hcorner : b.containsPoint b.high = true := by decide +kernel
  obtain ⟨box, hbox, hstrokes⟩ := encloses_stroke_iff quarterTurn id "" hx hy hscale hw hpage
  refine ⟨⟨hx, hy, hscale, hw, hpage, hcorner⟩, box, hbox, ?_⟩
  exact (hstrokes b.high hcorner).mpr (by decide +kernel)

/-- A stroke that ends in the last unit of a padded box in range, which no whole number that can be
written is beyond. -/
theorem stroke_cut_off :
    let _ : Scalar ℚ := .exact ℚ quarterTurn id
    let b : Box ℚ := ⟨⟨0, 0⟩, ⟨1023, 0⟩⟩
    let v := Viewport.fit (Box.single (⟨0, 0⟩ : Point ℚ)) (2 ^ 64 - 2048) 2 0
    let box : Box ℚ := ⟨⟨2 ^ 63 - 1025, 0⟩, ⟨2 ^ 63 - 1, 2⟩⟩
    let stroke := (Box.single (v.toSurface b.high)).padded (1 / 2 / 2)
    (b.low.x ≤ b.high.x ∧ b.low.y ≤ b.high.y ∧ 0 < v.scale ∧ (1 / 1000 : ℚ) ≤ 1 / 2 ∧
      ((v.mapBox b).padded (1 / 2)).Satisfies (fun a ↦ |a| < 2 ^ 63) ∧
      b.containsPoint b.high = true) ∧
      boundingBox? (lines (prologue "" b v (1 / 2))) = some box ∧
      stroke.high.x = 2 ^ 63 - 3 / 4 ∧ box.contains stroke = false := by
  intro _ b v box stroke
  have hbox : boundingBox? (lines (prologue "" b v (1 / 2))) = some box := by
    have hcorners : integerCorners (pageBox b v (1 / 2)) = [2 ^ 63 - 1025, 0, 2 ^ 63 - 1, 2] := by
      decide +kernel
    rw [boundingBox?_prologue "" hcorners]
    decide +kernel
  refine ⟨by decide +kernel, hbox, ?_, ?_⟩ <;> decide +kernel

end Exact

end PostScript

end LSystem
