import LSystem.Proofs.Plane.Similarity

/-!
# Boxes on a surface

What fitting comes to in exact numbers.  The middle of a box lands in the middle of the surface, and
the box is stretched until it fills the free area along one axis without leaving it along the other.
An extent that is noise beside the other one does not count, so along its axis nothing is filled; all
other boxes keep clear of the borders (`fit_fills`).
-/

namespace LSystem

variable {K : Type} [Field K] [LinearOrder K]

/-- What an extent of a box has to exceed in order to count beside the other one. -/
def Box.noise (b : Box K) : K := max (b.high.x - b.low.x) (b.high.y - b.low.y) / (10 ^ 9 : ℕ)

/-- What two margins leave free of an extent of a surface, and one at least. -/
def freeExtent (extent margin : K) : K := max (extent - (margin + margin)) 1

/-- At least a margin away from all four borders of a surface. -/
def Point.Clear (width height margin : K) (p : Point K) : Prop :=
  (margin ≤ p.x ∧ p.x ≤ width - margin) ∧ margin ≤ p.y ∧ p.y ≤ height - margin

/-! ## Extents -/

theorem noise_eq (b : Box K) :
    b.noise = max (b.high.x - b.low.x) (b.high.y - b.low.y) / 10 ^ 9 := by
  rw [Box.noise, Nat.cast_pow, Nat.cast_ofNat]

theorem freeExtent_eq (extent margin : K) : freeExtent extent margin = max (extent - 2 * margin) 1 := by
  rw [freeExtent, two_mul]

section Extents

variable [IsStrictOrderedRing K] {a c s f g : K}

theorem noise_nonneg {b : Box K} (hx : b.low.x ≤ b.high.x) : 0 ≤ b.noise :=
  div_nonneg (le_max_of_le_left (sub_nonneg.mpr hx)) (Nat.cast_nonneg _)

theorem freeExtent_pos (extent margin : K) : 0 < freeExtent extent margin :=
  lt_of_lt_of_le one_pos (le_max_right _ _)

theorem stretched_le (hs : 0 ≤ s) (shift : K) (h : a ≤ c) : a * s + shift ≤ c * s + shift :=
  add_le_add_left (mul_le_mul_of_nonneg_right h hs) shift

theorem filled_of_both (ha : 0 < a) (hc : 0 < c) (hs : s = min (f / a) (g / c)) :
    (a * s ≤ f ∧ c * s ≤ g) ∧ (a * s = f ∨ c * s = g) := by
  have hf : a * (f / a) = f := mul_div_cancel₀ f ha.ne'
  have hg : c * (g / c) = g := mul_div_cancel₀ g hc.ne'
  subst hs
  refine ⟨⟨?_, ?_⟩, ?_⟩
  · exact (mul_le_mul_of_nonneg_left (min_le_left _ _) ha.le).trans_eq hf
  · exact (mul_le_mul_of_nonneg_left (min_le_right _ _) hc.le).trans_eq hg
  · -- The extent that allows less is the one that is filled.
    rcases le_total (f / a) (g / c) with hle | hle
    · exact Or.inl (by rw [min_eq_left hle, hf])
    · exact Or.inr (by rw [min_eq_right hle, hg])

/-- What is noise is noise beside the other extent, not beside itself. -/
theorem filled_of_one (ha : 0 < a) (hc : c ≤ max a c / 10 ^ 9) (hf : 0 < f) (hs : s = f / a) :
    a * s = f ∧ c * s ≤ f / 10 ^ 9 := by
  have hsmall : c ≤ a / 10 ^ 9 := by
    rcases le_total c a with hca | hac
    · rwa [max_eq_left hca] at hc
    · rw [max_eq_right hac] at hc
      have hnone : c ≤ 0 := by linarith
      exact hnone.trans (by positivity)
  have hfill : a * s = f := by rw [hs, mul_div_cancel₀ f ha.ne']
  refine ⟨hfill, ?_⟩
  calc c * s ≤ a / 10 ^ 9 * s := mul_le_mul_of_nonneg_right hsmall (hs ▸ (div_pos hf ha).le)
    _ = f / 10 ^ 9 := by rw [div_mul_eq_mul_div, hfill]

/-- A point of a centred box that leaves the margins free keeps them. -/
theorem clear_of_filled {low high extent margin : K} (hlow : low ≤ a) (hhigh : a ≤ high)
    (hs : 0 ≤ s) (hfill : (high - low) * s ≤ extent - 2 * margin) :
    margin ≤ (a - (low + high) / 2) * s + extent / 2 ∧
      (a - (low + high) / 2) * s + extent / 2 ≤ extent - margin := by
  have habove : 0 ≤ (a - low) * s := mul_nonneg (sub_nonneg.mpr hlow) hs
  have hbelow : 0 ≤ (high - a) * s := mul_nonneg (sub_nonneg.mpr hhigh) hs
  constructor <;> linarith

end Extents

/-! ## Scales -/

section Scales

variable [FloorRing K] (direction : K → K × K) (sqrt : K → K)

theorem scale_fit_exact (b : Box K) (width height margin : K) :
    (@Viewport.fit K (.exact K direction sqrt) b width height margin).scale =
      if b.noise < b.high.x - b.low.x then
        if b.noise < b.high.y - b.low.y then
          min (freeExtent width margin / (b.high.x - b.low.x))
            (freeExtent height margin / (b.high.y - b.low.y))
        else freeExtent width margin / (b.high.x - b.low.x)
      else if b.noise < b.high.y - b.low.y then
        freeExtent height margin / (b.high.y - b.low.y)
      else 1 := by
  let := Scalar.exact K direction sqrt
  have hfree (extent : K) :
      Scalar.upper (extent - (2.0 : K) * margin) (1.0 : K) = freeExtent extent margin := by
    rw [upper_exact, two_exact, one_exact, freeExtent_eq]
  have hscale : (Viewport.fit b width height margin).scale =
      Viewport.fitScale ⟨freeExtent width margin, freeExtent height margin⟩ b.size := by
    rw [← hfree, ← hfree]
    rfl
  rw [hscale, noise_eq]
  exact Similarity.fitScale_exact direction sqrt _ _

theorem center_exact (b : Box K) :
    @Box.center K (.exact K direction sqrt) b =
      ⟨(b.low.x + b.high.x) / 2, (b.low.y + b.high.y) / 2⟩ := by
  let := Scalar.exact K direction sqrt
  have haxis (low high : K) : (low + high) * (0.5 : K) = (low + high) / 2 := by
    rw [half_exact, mul_one_div]
  exact congrArg₂ Point.mk (haxis _ _) (haxis _ _)

theorem containsPoint_exact (b : Box K) (p : Point K) :
    @Box.containsPoint K (.exact K direction sqrt) b p = true ↔
      (b.low.x ≤ p.x ∧ b.low.y ≤ p.y) ∧ p.x ≤ b.high.x ∧ p.y ≤ b.high.y :=
  @Box.containsPoint_iff K (.exact K direction sqrt) b p

/-- A box whose corners are in order is inside if its corners are not beyond the sides. -/
theorem contains_exact (b : Box K) {c : Box K} (hx : c.low.x ≤ c.high.x) (hy : c.low.y ≤ c.high.y) :
    @Box.contains K (.exact K direction sqrt) b c = true ↔
      (b.low.x ≤ c.low.x ∧ b.low.y ≤ c.low.y) ∧ c.high.x ≤ b.high.x ∧ c.high.y ≤ b.high.y := by
  let := Scalar.exact K direction sqrt
  rw [Box.contains, Bool.and_eq_true, containsPoint_exact, containsPoint_exact]
  constructor
  · rintro ⟨hlow, hhigh⟩
    exact ⟨hlow.1, hhigh.2⟩
  · rintro ⟨⟨hleft, hbottom⟩, hright, htop⟩
    exact ⟨⟨⟨hleft, hbottom⟩, hx.trans hright, hy.trans htop⟩,
      ⟨hleft.trans hx, hbottom.trans hy⟩, hright, htop⟩

variable [IsStrictOrderedRing K]

theorem scale_fit_pos {b : Box K} (hx : b.low.x ≤ b.high.x) (width height margin : K) :
    0 < (@Viewport.fit K (.exact K direction sqrt) b width height margin).scale := by
  have hnoise : 0 ≤ b.noise := noise_nonneg hx
  have hdiv {extent size : K} (hsize : b.noise < size) : 0 < freeExtent extent margin / size :=
    div_pos (freeExtent_pos extent margin) (hnoise.trans_lt hsize)
  rw [scale_fit_exact]
  split_ifs with hwide htall htall
  · exact lt_min (hdiv hwide) (hdiv htall)
  · exact hdiv hwide
  · exact hdiv htall
  · exact one_pos

/-! ## Where boxes land -/

theorem mapBox_exact {b : Box K} (hx : b.low.x ≤ b.high.x) (hy : b.low.y ≤ b.high.y)
    (v : Viewport K) (hscale : 0 ≤ v.scale) :
    letI := Scalar.exact K direction sqrt
    v.mapBox b = ⟨v.toSurface b.low, v.toSurface b.high⟩ := by
  let := Scalar.exact K direction sqrt
  have hcolumns := stretched_le hscale v.translation.x hx
  have hrows := stretched_le hscale v.translation.y hy
  have hlow : (v.toSurface b.low).lower (v.toSurface b.high) = v.toSurface b.low := by
    unfold Point.lower
    rw [lower_exact, lower_exact]
    exact congrArg₂ Point.mk (min_eq_left hcolumns) (min_eq_left hrows)
  have hhigh : (v.toSurface b.low).upper (v.toSurface b.high) = v.toSurface b.high := by
    unfold Point.upper
    rw [upper_exact, upper_exact]
    exact congrArg₂ Point.mk (max_eq_right hcolumns) (max_eq_right hrows)
  exact congrArg₂ Box.mk hlow hhigh

theorem size_mapBox_exact {b : Box K} (hx : b.low.x ≤ b.high.x) (hy : b.low.y ≤ b.high.y)
    (v : Viewport K) (hscale : 0 ≤ v.scale) :
    letI := Scalar.exact K direction sqrt
    (v.mapBox b).size =
      ⟨(b.high.x - b.low.x) * v.scale, (b.high.y - b.low.y) * v.scale⟩ := by
  let := Scalar.exact K direction sqrt
  have haxis (low high shift : K) :
      high * v.scale + shift - (low * v.scale + shift) = (high - low) * v.scale := by ring
  have hmapped : v.mapBox b = ⟨v.toSurface b.low, v.toSurface b.high⟩ :=
    mapBox_exact direction sqrt hx hy v hscale
  rw [hmapped]
  exact congrArg₂ Point.mk (haxis _ _ _) (haxis _ _ _)

end Scales

/-! ## Fitting -/

section Fitting

variable [FloorRing K] [IsStrictOrderedRing K] (direction : K → K × K) (sqrt : K → K)

/-- A fitted viewport centres a box on the surface and fills the free area.  Its scale is positive, and
the middle of the box goes to the middle of the surface.  If both extents of the box count, none of
them is mapped to more than what is free along its axis, and one of them to just that; if only one
counts, it is mapped to what is free along its axis, and the other one to a billionth of that at
most; and the scale for a single point is one.  So on a surface that has room for the margins and one
more, all points of a box whose extents both count keep the margin to all four borders, whether the
rows are counted from below or from the top. -/
theorem fit_fills {b : Box K} (hx : b.low.x ≤ b.high.x) (hy : b.low.y ≤ b.high.y)
    (width height margin : K) :
    letI := Scalar.exact K direction sqrt
    let v := Viewport.fit b width height margin
    let wide := b.noise < b.high.x - b.low.x
    let tall := b.noise < b.high.y - b.low.y
    let mapped := (v.mapBox b).size
    let free : Point K := ⟨freeExtent width margin, freeExtent height margin⟩
    0 < v.scale ∧
      v.toSurface b.center = ⟨width / 2, height / 2⟩ ∧
      (wide → tall → (mapped.x ≤ free.x ∧ mapped.y ≤ free.y) ∧
        (mapped.x = free.x ∨ mapped.y = free.y)) ∧
      (wide → ¬ tall → mapped.x = free.x ∧ mapped.y ≤ free.x / 10 ^ 9) ∧
      (¬ wide → tall → mapped.y = free.y ∧ mapped.x ≤ free.y / 10 ^ 9) ∧
      (b.low = b.high → v.scale = 1) ∧
      (wide → tall → 2 * margin + 1 ≤ width → 2 * margin + 1 ≤ height →
        ∀ p, b.containsPoint p = true → (v.toSurface p).Clear width height margin ∧
          (v.toPixel p).Clear width height margin) := by
  let := Scalar.exact K direction sqrt
  intro v wide tall mapped free
  have hscale : 0 < v.scale := scale_fit_pos direction sqrt hx width height margin
  have hmapped : mapped = ⟨(b.high.x - b.low.x) * v.scale, (b.high.y - b.low.y) * v.scale⟩ :=
    size_mapBox_exact direction sqrt hx hy v hscale.le
  have hcases : v.scale = _ := scale_fit_exact direction sqrt b width height margin
  have hcounts {size : K} (hsize : b.noise < size) : 0 < size :=
    (noise_nonneg hx).trans_lt hsize
  have hboth (hwide : wide) (htall : tall) : (mapped.x ≤ free.x ∧ mapped.y ≤ free.y) ∧
      (mapped.x = free.x ∨ mapped.y = free.y) := by
    rw [if_pos hwide, if_pos htall] at hcases
    rw [hmapped]
    exact filled_of_both (hcounts hwide) (hcounts htall) hcases
  refine ⟨hscale, ?_, hboth, ?_, ?_, ?_, ?_⟩
  · rw [Similarity.toSurface_fit_exact, center_exact]
    simp
  · intro hwide htall
    rw [if_pos hwide, if_neg htall] at hcases
    rw [hmapped]
    exact filled_of_one (hcounts hwide) (noise_eq b ▸ not_lt.mp htall) (freeExtent_pos width margin)
      hcases
  · intro hwide htall
    rw [if_neg hwide, if_pos htall] at hcases
    have hsmall := not_lt.mp hwide
    rw [noise_eq, max_comm] at hsmall
    rw [hmapped]
    exact filled_of_one (hcounts htall) hsmall (freeExtent_pos height margin) hcases
  · intro hpoint
    have hnone : ¬ wide ∧ ¬ tall := by
      simp [wide, tall, hpoint, noise_nonneg hx]
    rwa [if_neg hnone.1, if_neg hnone.2] at hcases
  · intro hwide htall hwidth hheight p hp
    obtain ⟨⟨hleft, hbottom⟩, hright, htop⟩ := (containsPoint_exact direction sqrt b p).mp hp
    have hfree {extent : K} (h : 2 * margin + 1 ≤ extent) :
        freeExtent extent margin = extent - 2 * margin := by
      rw [freeExtent_eq, max_eq_left (by linarith)]
    have hfit := (hboth hwide htall).1
    rw [hmapped] at hfit
    have hcolumn := clear_of_filled hleft hright hscale.le (hfit.1.trans_eq (hfree hwidth))
    have hrow := clear_of_filled hbottom htop hscale.le (hfit.2.trans_eq (hfree hheight))
    have hsurface : v.toSurface p = _ :=
      Similarity.toSurface_fit_exact direction sqrt b width height margin p
    have hpixel : v.toPixel p = ⟨(v.toSurface p).x, height - (v.toSurface p).y⟩ := rfl
    rw [hpixel, hsurface]
    exact ⟨⟨hcolumn, hrow⟩, hcolumn, by linarith [hrow.2], by linarith [hrow.1]⟩

theorem fit_fills_upright :
    let _ : Scalar ℚ := .exact ℚ quarterTurn id
    let b : Box ℚ := ⟨⟨-1, 0⟩, ⟨1, 4⟩⟩
    let v := Viewport.fit b 100 100 10
    (b.low.x ≤ b.high.x ∧ b.low.y ≤ b.high.y) ∧ v.toSurface b.center = ⟨100 / 2, 100 / 2⟩ ∧
      (v.toPixel ⟨1, 4⟩).Clear 100 100 10 := by
  let _ : Scalar ℚ := .exact ℚ quarterTurn id
  let b : Box ℚ := ⟨⟨-1, 0⟩, ⟨1, 4⟩⟩
  have hx : b.low.x ≤ b.high.x := by decide
  have hy : b.low.y ≤ b.high.y := by decide
  obtain ⟨-, hmiddle, -, -, -, -, hclear⟩ := fit_fills quarterTurn id hx hy 100 100 10
  have hwide : b.noise < b.high.x - b.low.x := by norm_num [Box.noise, b]
  have htall : b.noise < b.high.y - b.low.y := by norm_num [Box.noise, b]
  have hcorner : b.containsPoint ⟨1, 4⟩ = true := by decide
  have hkept := hclear hwide htall (by norm_num) (by norm_num) ⟨1, 4⟩ hcorner
  exact ⟨⟨hx, hy⟩, hmiddle, hkept.2⟩

end Fitting

end LSystem
