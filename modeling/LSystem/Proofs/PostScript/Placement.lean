import LSystem.Proofs.Number.Decimal
import LSystem.Proofs.PostScript.Painting
import LSystem.Proofs.PostScript.Prologue

/-!
# Where a page puts a point

The prologue of a page is read line by line for the transformation that it installs, and the numerals
that are written for a point are read and transformed.  What comes out is not where the viewport puts
the point, since everything is written with a fixed count of decimal places.  For the drawings of
ordinary pages the difference is not visible (`page_near`), but a drawing that is large enough leaves
its page (`page_far`).
-/

namespace LSystem.PostScript

open Number (decimal? halfPlace halfPlace_nonneg halfPlace_eq)

/-- A map of the plane that stretches along the axes and then shifts. -/
structure Transformation (K : Type) where
  scale : Point K
  shift : Point K
  deriving DecidableEq, Repr

/-! ## Reading a prologue -/

namespace Transformation

variable {K : Type} [Field K]

def identity : Transformation K := ⟨⟨1, 1⟩, ⟨0, 0⟩⟩

def apply (t : Transformation K) (p : Point K) : Point K :=
  ⟨t.scale.x * p.x + t.shift.x, t.scale.y * p.y + t.shift.y⟩

/-- Moves the origin to a point. -/
def translate (t : Transformation K) (p : Point K) : Transformation K := ⟨t.scale, t.apply p⟩

def stretch (t : Transformation K) (p : Point K) : Transformation K :=
  ⟨⟨t.scale.x * p.x, t.scale.y * p.y⟩, t.shift⟩

/-- What an operator with two operands does to a transformation. -/
def perform (t : Transformation K) (p : Point K) (operator : String) : Transformation K :=
  if operator = "translate" then t.translate p
  else if operator = "scale" then t.stretch p
  else t

/-- What a line of text does to a transformation.  A comment does nothing. -/
def readLine (t : Transformation K) (line : String) : Transformation K :=
  if line.toList.head? = some '%' then t
  else
    match words line with
    | [x, y, operator] =>
      match decimal? x, decimal? y with
      | some x, some y => t.perform ⟨x, y⟩ operator
      | _, _ => t
    | _ => t

def read (t : Transformation K) (ls : List String) : Transformation K := ls.foldl readLine t

/-- A line that does nothing to any transformation. -/
def Idle (line : String) : Prop := ∀ t : Transformation K, t.readLine line = t

theorem idle_comment {line : String} (h : line.toList.head? = some '%') : Idle (K := K) line :=
  fun _ => if_pos h

/-- Operators that take two operands have lines of three words. -/
theorem idle_of_words {line : String} (h : (words line).length ≠ 3) : Idle (K := K) line := by
  intro t
  unfold readLine
  split_ifs
  · rfl
  · split
    · rename_i hwords
      rw [hwords] at h
      exact absurd rfl h
    · rfl

end Transformation

/-- The point that the numerals of a place stand for. -/
def Place.point? {K : Type} [Field K] (p : Place) : Option (Point K) :=
  match decimal? p.x, decimal? p.y with
  | some x, some y => some ⟨x, y⟩
  | _, _ => none

section Reading

variable {α : Type} [Scalar α] {K : Type} [Field K]

theorem words_numerals {places : Nat} (xs : List (Number.Fixed places)) {operator : String}
    (h : operator ≠ "" ∧ ' ' ∉ operator.toList) :
    words (spaced (xs.map Number.Fixed.text ++ [operator])) =
      xs.map Number.Fixed.text ++ [operator] := by
  apply words_spaced_of _ (by simp)
  intro w hw
  rcases List.mem_append.mp hw with hnumeral | hoperator
  · rcases List.mem_map.mp hnumeral with ⟨x, -, rfl⟩
    exact ⟨word_ne_empty (t := .numeral x.text) (isNumeral_text x),
      not_mem_numeral (isNumeral_text x) (Or.inl rfl)⟩
  · rwa [List.mem_singleton.mp hoperator]

theorem readLine_numerals {places : Nat} (t : Transformation K) {x y : Number.Fixed places} {a b : K}
    (hx : decimal? x.text = some a) (hy : decimal? y.text = some b) {operator : String}
    (h : operator ≠ "" ∧ ' ' ∉ operator.toList) :
    t.readLine (spaced [x.text, y.text, operator]) = t.perform ⟨a, b⟩ operator := by
  have hwords : words (spaced [x.text, y.text, operator]) = [x.text, y.text, operator] :=
    words_numerals [x, y] h
  have hhead : (spaced [x.text, y.text, operator]).toList.head? ≠ some '%' := by
    have hne : x.text.toList ≠ [] := by
      rw [ne_eq, String.toList_eq_nil_iff]
      exact word_ne_empty (t := .numeral x.text) (isNumeral_text x)
    intro hhead
    unfold spaced at hhead
    rw [String.intercalate_cons_cons, String.toList_append, String.toList_append, List.append_assoc,
      List.head?_append_of_ne_nil _ hne] at hhead
    exact not_mem_numeral (isNumeral_text x) (Or.inr (Or.inr rfl)) (List.mem_of_mem_head? hhead)
  unfold Transformation.readLine
  rw [if_neg hhead, hwords]
  simp only [hx, hy]

/-- The numerals on two lines of a prologue are all that coordinates depend on. -/
theorem read_prologue (title : String) (bounds : Box α) (viewport : Viewport α) (lineWidth : α)
    {scale x y : K} (hscale : decimal? (Scalar.fixed 6 viewport.scale).text = some scale)
    (hx : decimal? (Scalar.fixed 4 viewport.translation.x).text = some x)
    (hy : decimal? (Scalar.fixed 4 viewport.translation.y).text = some y) :
    Transformation.identity.read (lines (prologue title bounds viewport lineWidth)) =
      ⟨⟨scale, scale⟩, ⟨x, y⟩⟩ := by
  have hstart {s : String} (h : s.toList.head? = some '%') (t : String) :
      (s ++ t).toList.head? = some '%' := by
    rw [String.toList_append, List.head?_append, h]
    rfl
  have hcomment (line : String) (h : line.toList.head? = some '%') (t : Transformation K) :
      t.readLine line = t := Transformation.idle_comment h t
  have hwidth (x : Number.Fixed 6) (t : Transformation K) :
      t.readLine (spaced [x.text, "setlinewidth"]) = t := by
    apply Transformation.idle_of_words
    have hwords : words (spaced [x.text, "setlinewidth"]) = [x.text, "setlinewidth"] :=
      words_numerals [x] (by decide)
    rw [hwords]
    exact (by decide : 2 ≠ 3)
  have hempty : Transformation.Idle (K := K) "" := Transformation.idle_of_words (by decide)
  have hcaps : Transformation.Idle (K := K) "1 setlinecap 1 setlinejoin" :=
    Transformation.idle_of_words (by decide +kernel)
  rw [lines_prologue]
  -- Comments and the lines on strokes do nothing; the two that are left come in this order.
  unfold Transformation.read prologueLines
  simp only [List.cons_append, List.nil_append, List.foldl_cons, List.foldl_nil]
  rw [hcomment "%!PS-Adobe-3.0 EPSF-3.0" (by decide),
    hcomment _ (hstart (hstart (by decide : "%%Title: (".toList.head? = some '%') _) _),
    hcomment _ (hstart (hstart (by decide : "%%Creator: (".toList.head? = some '%') _) _),
    hcomment _ (hstart (by decide : "%%BoundingBox: ".toList.head? = some '%') _),
    hcomment _ (hstart (by decide : "%%HiResBoundingBox: ".toList.head? = some '%') _),
    hcomment "%%LanguageLevel: 2" (by decide), hcomment "%%EndComments" (by decide), hempty,
    readLine_numerals _ hx hy (by decide), readLine_numerals _ hscale hscale (by decide),
    hwidth, hcaps, hempty]
  simp [Transformation.perform, Transformation.translate, Transformation.stretch,
    Transformation.identity, Transformation.apply]

end Reading

/-! ## How far off a page is -/

section Exact

variable {K : Type} [Field K] [LinearOrder K]

/-- How far a page may put a coordinate from where it belongs.  Coordinates and shifts are written to
four places and scales to six. -/
def misplacement (scale a : K) : K :=
  (|a| + halfPlace 4) * halfPlace 6 + halfPlace 4 * (|scale| + 1)

variable [IsStrictOrderedRing K]

theorem abs_sub_le_misplacement {a a' scale scale' shift shift' : K}
    (ha : |a' - a| ≤ halfPlace 4) (hscale : |scale' - scale| ≤ halfPlace 6)
    (hshift : |shift' - shift| ≤ halfPlace 4) :
    |scale' * a' + shift' - (a * scale + shift)| ≤ misplacement scale a := by
  have hsplit : scale' * a' + shift' - (a * scale + shift) =
      a' * (scale' - scale) + (a' - a) * scale + (shift' - shift) := by ring
  have hsize : |a'| ≤ |a| + halfPlace 4 := by
    have htriangle := abs_add_le a (a' - a)
    rw [add_sub_cancel] at htriangle
    linarith
  calc |scale' * a' + shift' - (a * scale + shift)|
      ≤ |a'| * |scale' - scale| + |a' - a| * |scale| + |shift' - shift| := by
        rw [hsplit, ← abs_mul, ← abs_mul]
        exact abs_add_three _ _ _
    _ ≤ (|a| + halfPlace 4) * halfPlace 6 + halfPlace 4 * |scale| + halfPlace 4 := by
        have hplace := halfPlace_nonneg (K := K) 4
        gcongr
    _ = misplacement scale a := by
        rw [misplacement]
        ring

theorem misplacement_le {scale a : K} (hscale : |scale| ≤ 4000) (ha : |a| ≤ 500000) :
    misplacement scale a ≤ 1 / 2 := by
  rw [misplacement, halfPlace_eq, halfPlace_eq]
  linarith

variable [FloorRing K] (direction : K → K × K) (sqrt : K → K)

/-- On its page, a point is where the viewport puts it but for a distance that is half a point at most
along either axis, as long as its coordinates are at most half a million and the scale is at most four
thousand.  In general the distance grows with both. -/
theorem page_near (title : String) (b : Box K) (width height margin lineWidth : K) (p : Point K) :
    letI := Scalar.exact K direction sqrt
    let viewport := Viewport.fit b width height margin
    let page := Transformation.identity.read (lines (prologue title b viewport lineWidth))
    ∃ q, (Place.ofPoint p).point? = some q ∧
      (|(page.apply q).x - (viewport.toSurface p).x| ≤ misplacement viewport.scale p.x ∧
        |(page.apply q).y - (viewport.toSurface p).y| ≤ misplacement viewport.scale p.y) ∧
      (|viewport.scale| ≤ 4000 → |p.x| ≤ 500000 → |p.y| ≤ 500000 →
        |(page.apply q).x - (viewport.toSurface p).x| ≤ 1 / 2 ∧
          |(page.apply q).y - (viewport.toSurface p).y| ≤ 1 / 2) := by
  let := Scalar.exact K direction sqrt
  intro viewport page
  obtain ⟨x, hx, hx'⟩ := Number.exists_decimal? direction sqrt 4 p.x
  obtain ⟨y, hy, hy'⟩ := Number.exists_decimal? direction sqrt 4 p.y
  obtain ⟨scale, hscale, hscale'⟩ := Number.exists_decimal? direction sqrt 6 viewport.scale
  obtain ⟨shiftX, hshiftX, hshiftX'⟩ :=
    Number.exists_decimal? direction sqrt 4 viewport.translation.x
  obtain ⟨shiftY, hshiftY, hshiftY'⟩ :=
    Number.exists_decimal? direction sqrt 4 viewport.translation.y
  have hpage : page = ⟨⟨scale, scale⟩, ⟨shiftX, shiftY⟩⟩ :=
    read_prologue title b viewport lineWidth hscale hshiftX hshiftY
  have hnearX := abs_sub_le_misplacement hx' hscale' hshiftX'
  have hnearY := abs_sub_le_misplacement hy' hscale' hshiftY'
  refine ⟨⟨x, y⟩, ?_, ?_, ?_⟩
  · have hcoordinates : (Place.ofPoint p).x = (Scalar.fixed 4 p.x).text ∧
        (Place.ofPoint p).y = (Scalar.fixed 4 p.y).text := ⟨rfl, rfl⟩
    simp only [Place.point?, hcoordinates, hx, hy]
  · rw [hpage]
    exact ⟨hnearX, hnearY⟩
  · intro hsmall hpx hpy
    rw [hpage]
    exact ⟨hnearX.trans (misplacement_le hsmall hpx), hnearY.trans (misplacement_le hsmall hpy)⟩

theorem page_near_small :
    let _ : Scalar ℚ := .exact ℚ quarterTurn id
    let b : Box ℚ := ⟨⟨0, 0⟩, ⟨7, 3⟩⟩
    let p : Point ℚ := ⟨7, 3⟩
    let viewport := Viewport.fit b 612 792 36
    let page : Transformation ℚ := Transformation.identity.read (lines (prologue "" b viewport 1))
    (|viewport.scale| ≤ 4000 ∧ |p.x| ≤ 500000 ∧ |p.y| ≤ 500000) ∧
      ∃ q, (Place.ofPoint p).point? = some q ∧
        |(page.apply q).x - (viewport.toSurface p).x| ≤ 1 / 2 ∧
          |(page.apply q).y - (viewport.toSurface p).y| ≤ 1 / 2 := by
  intro _ b p viewport page
  have hscale : |viewport.scale| ≤ 4000 := by decide +kernel
  have hx : |p.x| ≤ 500000 := by decide +kernel
  have hy : |p.y| ≤ 500000 := by decide +kernel
  obtain ⟨q, hq, -, hnear⟩ := page_near quarterTurn id "" b 612 792 36 1 p
  exact ⟨⟨hscale, hx, hy⟩, q, hq, hnear hscale hx hy⟩

/-- A scale that is too small for six places sends a point of a large drawing off the page. -/
theorem page_far :
    let _ : Scalar ℚ := .exact ℚ quarterTurn id
    let b : Box ℚ := ⟨⟨0, 0⟩, ⟨10 ^ 9, 0⟩⟩
    let p : Point ℚ := ⟨10 ^ 9, 0⟩
    let viewport := Viewport.fit b 612 792 36
    let page : Transformation ℚ := Transformation.identity.read (lines (prologue "" b viewport 1))
    b.containsPoint p = true ∧ (Place.ofPoint p).point? = some p ∧
      viewport.toSurface p = ⟨576, 396⟩ ∧ page.apply p = ⟨1036, 396⟩ ∧
      1 / 2 < |(page.apply p).x - (viewport.toSurface p).x| := by
  intro _ b p viewport page
  have hpage : page = ⟨⟨1 / 10 ^ 6, 1 / 10 ^ 6⟩, ⟨36, 396⟩⟩ :=
    read_prologue "" b viewport 1 (by decide +kernel) (by decide +kernel) (by decide +kernel)
  rw [hpage]
  decide +kernel

end Exact

end LSystem.PostScript
