import Mathlib.Tactic.FieldSimp
import Mathlib.Tactic.Linarith
import Mathlib.Tactic.NormNum
import Mathlib.Tactic.Ring
import LSystem.Plane.Viewport
import LSystem.Proofs.Number.Exact
import LSystem.Proofs.Plane.Box

/-!
# Stretching and shifting the plane

A similarity stretches the exact plane about a centre and shifts it.  It takes the box around some
points to the box around their images, and a viewport that is fitted to the new box undoes it: every
point in the box lands where it did before (`toSurface_fit_image`).
-/

namespace LSystem

variable {K : Type} [Field K] [LinearOrder K]

/-- A map that stretches the plane about a centre by a positive factor, and then shifts it. -/
structure Similarity (K : Type) [Field K] [LinearOrder K] where
  center : Point K
  shift : Point K
  factor : K
  factor_pos : 0 < factor

namespace Similarity

/-- Where a coordinate goes. -/
def along (center shift factor a : K) : K := center + shift + factor * (a - center)

/-- Where a point goes. -/
def image (m : Similarity K) (p : Point K) : Point K :=
  ⟨along m.center.x m.shift.x m.factor p.x, along m.center.y m.shift.y m.factor p.y⟩

def box (m : Similarity K) (b : Box K) : Box K := ⟨m.image b.low, m.image b.high⟩

end Similarity

/-! ## Exact operations -/

section Exact

variable [FloorRing K] (direction : K → K × K) (sqrt : K → K)

theorem one_exact :
    letI := Scalar.exact K direction sqrt
    (1.0 : K) = 1 := by
  show (OfScientific.ofScientific 10 true 1 : K) = 1
  norm_num

theorem two_exact :
    letI := Scalar.exact K direction sqrt
    (2.0 : K) = 2 := by
  show (OfScientific.ofScientific 20 true 1 : K) = 2
  norm_num

theorem half_exact :
    letI := Scalar.exact K direction sqrt
    (0.5 : K) = 1 / 2 := by
  show (OfScientific.ofScientific 5 true 1 : K) = 1 / 2
  norm_num

theorem lower_exact (a b : K) :
    letI := Scalar.exact K direction sqrt
    Scalar.lower a b = min a b := (min_def_lt a b).symm

theorem upper_exact (a b : K) :
    letI := Scalar.exact K direction sqrt
    Scalar.upper a b = max a b := (max_def_lt' a b).symm

theorem least_exact (a b : K) :
    letI := Scalar.exact K direction sqrt
    Scalar.least a b = min a b := by
  let := Scalar.exact K direction sqrt
  have hself : (b == b) = true := beq_self_eq_true b
  rw [Scalar.least, if_pos hself]
  exact (min_def_lt a b).symm

end Exact

namespace Similarity

/-! ## Boxes -/

variable [IsStrictOrderedRing K]

theorem monotone_along (m : Similarity K) (center shift : K) :
    Monotone (along center shift m.factor) := by
  intro a b hab
  have hstretch := mul_le_mul_of_nonneg_left (sub_le_sub_right hab center) m.factor_pos.le
  exact add_le_add_right hstretch (center + shift)

variable [FloorRing K] (direction : K → K × K) (sqrt : K → K)

theorem box_grow (m : Similarity K) (b : Box K) (p : Point K) :
    letI := Scalar.exact K direction sqrt
    m.box (b.grow p) = (m.box b).grow (m.image p) := by
  simp only [Box.grow, Point.lower, Point.upper, box, image, lower_exact, upper_exact,
    (m.monotone_along _ _).map_min, (m.monotone_along _ _).map_max]

theorem around?_map_image (m : Similarity K) (ps : List (Point K)) :
    letI := Scalar.exact K direction sqrt
    Box.around? (ps.map m.image) = (Box.around? ps).map m.box := by
  let := Scalar.exact K direction sqrt
  have hfold (b : Box K) (ps : List (Point K)) :
      (ps.map m.image).foldl Box.grow (m.box b) = m.box (ps.foldl Box.grow b) := by
    induction ps generalizing b with
    | nil => rfl
    | cons p ps ih =>
      have hgrow : (m.box b).grow (m.image p) = m.box (b.grow p) :=
        (m.box_grow direction sqrt b p).symm
      rw [List.map_cons, List.foldl_cons, List.foldl_cons, hgrow, ih]
  cases ps with
  | nil => rfl
  | cons p ps => exact congrArg some (hfold (Box.single p) ps)

/-! ## Viewports -/

omit [IsStrictOrderedRing K] in
theorem fitScale_exact (free size : Point K) :
    @Viewport.fitScale K (.exact K direction sqrt) free size =
      if max size.x size.y / 10 ^ 9 < size.x then
        if max size.x size.y / 10 ^ 9 < size.y then min (free.x / size.x) (free.y / size.y)
        else free.x / size.x
      else if max size.x size.y / 10 ^ 9 < size.y then free.y / size.y
      else 1 := by
  let := Scalar.exact K direction sqrt
  have hnoise : Scalar.upper size.x size.y * (1e-9 : K) = max size.x size.y / 10 ^ 9 := by
    show Scalar.upper size.x size.y * (OfScientific.ofScientific 1 true 9 : K) = _
    rw [upper_exact]
    norm_num
    ring
  simp only [Viewport.fitScale, hnoise, least_exact, one_exact]

/-- A box that is stretched is fitted by a scale that undoes it, unless it has no extent at all. -/
theorem factor_mul_fitScale (m : Similarity K) (free : Point K) {size : Point K}
    (hsize : 0 < size.x ∨ 0 < size.y) :
    m.factor *
        @Viewport.fitScale K (.exact K direction sqrt) free
          ⟨size.x * m.factor, size.y * m.factor⟩ =
      @Viewport.fitScale K (.exact K direction sqrt) free size := by
  let := Scalar.exact K direction sqrt
  have hpos := m.factor_pos
  have hnoise (a : K) : max (size.x * m.factor) (size.y * m.factor) / 10 ^ 9 < a * m.factor ↔
      max size.x size.y / 10 ^ 9 < a := by
    rw [← max_mul_of_nonneg _ _ hpos.le, mul_div_right_comm, mul_lt_mul_iff_of_pos_right hpos]
  have hundo (a b : K) : m.factor * (a / (b * m.factor)) = a / b := by
    rw [← div_div, mul_div_cancel₀ _ hpos.ne']
  rw [fitScale_exact, fitScale_exact]
  simp only [hnoise]
  split
  · split
    · rw [mul_min_of_nonneg _ _ hpos.le, hundo, hundo]
    · exact hundo _ _
  · split
    · exact hundo _ _
    · -- Both extents are noise, so neither of them is positive.
      rename_i hx hy
      have hmax : 0 < max size.x size.y := lt_max_iff.mpr hsize
      have hle : max size.x size.y ≤ max size.x size.y / 10 ^ 9 :=
        max_le (not_lt.mp hx) (not_lt.mp hy)
      linarith

omit [IsStrictOrderedRing K] in
theorem toSurface_fit_exact (b : Box K) (width height margin : K) (p : Point K) :
    let v := @Viewport.fit K (.exact K direction sqrt) b width height margin
    @Viewport.toSurface K (.exact K direction sqrt) v p =
      ⟨(p.x - (b.low.x + b.high.x) / 2) * v.scale + width / 2,
        (p.y - (b.low.y + b.high.y) / 2) * v.scale + height / 2⟩ := by
  let := Scalar.exact K direction sqrt
  intro v
  have haxis (a low high size : K) :
      a * v.scale + (size * (0.5 : K) - (low + high) * (0.5 : K) * v.scale) =
        (a - (low + high) / 2) * v.scale + size / 2 := by
    rw [half_exact]
    ring
  exact congrArg₂ Point.mk (haxis _ _ _ _) (haxis _ _ _ _)

omit [IsStrictOrderedRing K] in
theorem along_sub_middle (m : Similarity K) (center shift a low high : K) :
    along center shift m.factor a -
        (along center shift m.factor low + along center shift m.factor high) / 2 =
      (a - (low + high) / 2) * m.factor := by
  unfold along
  ring

/-- A point lands where it did before, if the viewport is fitted to the image of its box. -/
theorem toSurface_fit_image (m : Similarity K) {b : Box K} {p : Point K} (width height margin : K) :
    letI := Scalar.exact K direction sqrt
    b.Holds p →
      (Viewport.fit (m.box b) width height margin).toSurface (m.image p) =
        (Viewport.fit b width height margin).toSurface p := by
  let := Scalar.exact K direction sqrt
  intro hold
  have hsize : (m.box b).size = b.size.scale m.factor := by
    have haxis (center shift low high : K) :
        along center shift m.factor high - along center shift m.factor low =
          (high - low) * m.factor := by
      unfold along
      ring
    exact congrArg₂ Point.mk (haxis _ _ _ _) (haxis _ _ _ _)
  -- Either the scale makes up for the factor, or the point is all there is to the box.
  have hscale : m.factor * (Viewport.fit (m.box b) width height margin).scale =
        (Viewport.fit b width height margin).scale ∨
      p.x - (b.low.x + b.high.x) / 2 = 0 ∧ p.y - (b.low.y + b.high.y) / 2 = 0 := by
    by_cases hextent : 0 < b.size.x ∨ 0 < b.size.y
    · left
      simp only [Viewport.fit, hsize]
      exact m.factor_mul_fitScale direction sqrt _ hextent
    · right
      obtain ⟨⟨hleft, hbottom⟩, hright, htop⟩ := hold
      obtain ⟨hx, hy⟩ := not_or.mp hextent
      have hx : b.high.x - b.low.x ≤ 0 := not_lt.mp hx
      have hy : b.high.y - b.low.y ≤ 0 := not_lt.mp hy
      have hleft : b.low.x ≤ p.x := not_lt.mp hleft
      have hbottom : b.low.y ≤ p.y := not_lt.mp hbottom
      have hright : p.x ≤ b.high.x := not_lt.mp hright
      have htop : p.y ≤ b.high.y := not_lt.mp htop
      exact ⟨by linarith, by linarith⟩
  have haxis {d s s' : K} (h : m.factor * s' = s ∨ d = 0) : d * m.factor * s' = d * s := by
    rcases h with rfl | rfl
    · exact mul_assoc d m.factor s'
    · simp only [zero_mul]
  rw [toSurface_fit_exact, toSurface_fit_exact]
  simp only [box, image, along_sub_middle]
  congr 2
  · exact haxis (hscale.imp_right And.left)
  · exact haxis (hscale.imp_right And.right)

theorem toPixel_fit_image (m : Similarity K) {b : Box K} {p : Point K} (width height margin : K) :
    letI := Scalar.exact K direction sqrt
    b.Holds p →
      (Viewport.fit (m.box b) width height margin).toPixel (m.image p) =
        (Viewport.fit b width height margin).toPixel p := by
  let := Scalar.exact K direction sqrt
  intro hold
  have hsurface := m.toSurface_fit_image direction sqrt width height margin hold
  unfold Viewport.toPixel
  rw [hsurface]
  rfl

end Similarity

end LSystem
