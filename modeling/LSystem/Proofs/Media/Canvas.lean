import LSystem.Media.Canvas
import LSystem.Proofs.Turtle.Calls

/-!
# Painting canvases

What is painted on a canvas is a set of pixels: those that the samples fall in.  Lines in one colour
can be painted in any order and any number of times, and nothing but a line changes the canvas.
-/

namespace LSystem

namespace Canvas

/-! ## Pixels -/

theorem index_lt {width height x y : Nat} (hx : x < width) (hy : y < height) :
    y * width + x < width * height := by
  have hlt := Nat.mul_add_lt_mul_of_lt_of_lt hy hx
  rwa [Nat.mul_comm width y, Nat.mul_comm height width] at hlt

theorem index_inj {width x y i j : Nat} (hx : x < width) (hi : i < width)
    (h : y * width + x = j * width + i) : i = x ∧ j = y := by
  have hcolumn {k n : Nat} (hn : n < width) : (k * width + n) % width = n := by
    rw [Nat.mul_comm, Nat.mul_add_mod, Nat.mod_eq_of_lt hn]
  obtain rfl : i = x := by rw [← hcolumn hi, ← h, hcolumn hx]
  have hwidth : 0 < width := Nat.zero_lt_of_lt hx
  exact ⟨rfl, (Nat.eq_of_mul_eq_mul_right hwidth (Nat.add_right_cancel h)).symm⟩

theorem ext_pixel? {c d : Canvas} (hwidth : c.width = d.width) (hheight : c.height = d.height)
    (h : ∀ x y, c.pixel? x y = d.pixel? x y) : c = d := by
  obtain ⟨width, height, pixels, hpixels⟩ := c
  obtain ⟨_, _, pixels', hpixels'⟩ := d
  obtain rfl : width = _ := hwidth
  obtain rfl : height = _ := hheight
  have hsame : pixels = pixels' := by
    apply Array.ext (hpixels.trans hpixels'.symm)
    intro i hi hi'
    -- The pixel at place `i` is the one in row `i / width` and column `i % width`.
    have hlt : i < height * width := by rwa [hpixels, Nat.mul_comm] at hi
    have hwidth : 0 < width := Nat.pos_of_lt_mul_left hlt
    have hrow : i / width < height := (Nat.div_lt_iff_lt_mul hwidth).mpr hlt
    have hpixel := h (i % width) (i / width)
    rw [pixel?, pixel?, if_pos ⟨Nat.mod_lt i hwidth, hrow⟩, if_pos ⟨Nat.mod_lt i hwidth, hrow⟩,
      Nat.div_add_mod', Array.getElem?_eq_getElem hi, Array.getElem?_eq_getElem hi'] at hpixel
    exact Option.some.inj hpixel
  subst hsame
  rfl

theorem pixel?_blank (width height : Nat) (background : Color) {x y : Nat} (hx : x < width)
    (hy : y < height) : (blank width height background).pixel? x y = some background := by
  have hindex := index_lt hx hy
  simp only [pixel?, blank, hx, hy, and_self, if_true, Array.getElem?_replicate, hindex]

/-- `d` is `c` with the pixels of `A` in one colour, as far as there are such pixels. -/
structure Covers (A : Nat → Nat → Prop) (ink : Color) (c d : Canvas) : Prop where
  width : d.width = c.width
  height : d.height = c.height
  inside : ∀ {x y}, A x y → d.pixel? x y = (c.pixel? x y).map fun _ ↦ ink
  outside : ∀ {x y}, ¬ A x y → d.pixel? x y = c.pixel? x y

namespace Covers

variable {A B : Nat → Nat → Prop} {ink : Color} {c d e : Canvas}

theorem nothing (ink : Color) (c : Canvas) : Covers (fun _ _ ↦ False) ink c c :=
  ⟨rfl, rfl, False.elim, fun _ ↦ rfl⟩

theorem congr (h : Covers A ink c d) (hAB : ∀ x y, A x y ↔ B x y) : Covers B ink c d :=
  ⟨h.width, h.height, fun hB ↦ h.inside ((hAB _ _).mpr hB),
    fun hB ↦ h.outside ((hAB _ _).not.mpr hB)⟩

theorem trans (h : Covers A ink c d) (h' : Covers B ink d e) :
    Covers (fun x y ↦ A x y ∨ B x y) ink c e where
  width := h'.width.trans h.width
  height := h'.height.trans h.height
  inside := by
    intro x y hAB
    by_cases hB : B x y
    · -- What is under the second coat does not show.
      rw [h'.inside hB]
      by_cases hA : A x y
      · rw [h.inside hA, Option.map_map]
        rfl
      · rw [h.outside hA]
    · rw [h'.outside hB, h.inside (hAB.resolve_right hB)]
  outside := by
    intro x y hAB
    rw [not_or] at hAB
    rw [h'.outside hAB.2, h.outside hAB.1]

theorem unique (h : Covers A ink c d) (h' : Covers A ink c e) : d = e := by
  refine ext_pixel? (h.width.trans h'.width.symm) (h.height.trans h'.height.symm) fun x y ↦ ?_
  by_cases hA : A x y
  · rw [h.inside hA, h'.inside hA]
  · rw [h.outside hA, h'.outside hA]

/-- Painting one thing after the other covers what each of them covers. -/
theorem foldl {β : Type} {A : β → Nat → Nat → Prop} {paint : Canvas → β → Canvas}
    (h : ∀ c b, Covers (A b) ink c (paint c b)) (bs : List β) (c : Canvas) :
    Covers (fun x y ↦ ∃ b ∈ bs, A b x y) ink c (bs.foldl paint c) := by
  induction bs generalizing c with
  | nil => exact (nothing ink c).congr fun x y ↦ by simp
  | cons b bs ih => exact ((h c b).trans (ih (paint c b))).congr fun x y ↦ by simp

end Covers

theorem setPixel_outside {c : Canvas} {x y : Nat} (h : ¬ (x < c.width ∧ y < c.height))
    (ink : Color) : c.setPixel x y ink = c := if_neg h

theorem covers_setPixel (c : Canvas) (x y : Nat) (ink : Color) :
    Covers (fun i j ↦ i = x ∧ j = y) ink c (c.setPixel x y ink) := by
  by_cases hxy : x < c.width ∧ y < c.height
  · obtain ⟨width, height, pixels, hpixels⟩ := c
    have hindex : y * width + x < pixels.size := hpixels ▸ index_lt hxy.1 hxy.2
    have hset : setPixel ⟨width, height, pixels, hpixels⟩ x y ink =
        ⟨width, height, pixels.setIfInBounds (y * width + x) ink, by
          rw [Array.size_setIfInBounds, hpixels]⟩ := if_pos hxy
    rw [hset]
    refine ⟨rfl, rfl, ?_, ?_⟩
    · rintro i j ⟨rfl, rfl⟩
      simp [pixel?, hindex]
    · intro i j hij
      unfold pixel?
      by_cases hin : i < width ∧ j < height
      · have hne : y * width + x ≠ j * width + i := fun hsame ↦ hij (index_inj hxy.1 hin.1 hsame)
        simp [hin, hne]
      · simp [hin]
  · rw [setPixel_outside hxy]
    refine ⟨rfl, rfl, ?_, fun _ ↦ rfl⟩
    rintro i j ⟨rfl, rfl⟩
    simp [pixel?, hxy]

/-! ## Lines -/

section Painting

variable {α : Type} [Scalar α]

theorem covers_plot (c : Canvas) (ink : Color) (p : Point α) :
    Covers (fun x y ↦ pixelOf? p = some (x, y)) ink c (c.plot ink p) := by
  unfold plot
  cases pixelOf? p with
  | none => exact (Covers.nothing ink c).congr fun x y ↦ by simp
  | some q => exact (covers_setPixel c q.1 q.2 ink).congr fun x y ↦ by simp [Prod.ext_iff, eq_comm]

/-- A sample colours a pixel of the canvas, or nothing. -/
theorem plot_eq_or (c : Canvas) (ink : Color) (p : Point α) :
    c.plot ink p = c ∨
      ∃ x y, x < c.width ∧ y < c.height ∧ c.plot ink p = c.setPixel x y ink := by
  unfold plot
  cases pixelOf? p with
  | none => exact Or.inl rfl
  | some q =>
    by_cases hq : q.1 < c.width ∧ q.2 < c.height
    · exact Or.inr ⟨q.1, q.2, hq.1, hq.2, rfl⟩
    · exact Or.inl (setPixel_outside hq ink)

/-- The samples that a line of the plane is painted by. -/
def samples (viewport : Viewport α) (s : Segment α) : List (Point α) :=
  let first := viewport.toPixel s.source
  let extent := viewport.toPixel s.target - first
  let steps := lineSteps extent
  if Scalar.isFinite steps then
    (List.range ((Scalar.wholePart 0 (Number.twoTo 64 - 1) steps).toNat + 1)).map
      (sample first extent steps)
  else []

theorem line_eq_foldl (c : Canvas) (viewport : Viewport α) (ink : Color) (s : Segment α) :
    c.line viewport ink s.source s.target =
      (samples viewport s).foldl (fun c p ↦ c.plot ink p) c := by
  have hfold (n : Nat) (f : Nat → Point α) :
      Nat.fold n (fun i _ c ↦ c.plot ink (f i)) c =
        ((List.range n).map f).foldl (fun c p ↦ c.plot ink p) c := by
    induction n with
    | zero => rfl
    | succ n ih =>
      rw [Nat.fold_succ, ih, List.range_succ, List.map_append, List.foldl_append]
      rfl
  unfold line samples
  dsimp only
  split
  · exact hfold _ _
  · rfl

/-- Lines of the plane, painted one after the other. -/
def paint (c : Canvas) (viewport : Viewport α) (ink : Color) (ss : List (Segment α)) : Canvas :=
  ss.foldl (fun c s ↦ c.line viewport ink s.source s.target) c

theorem covers_paint (c : Canvas) (viewport : Viewport α) (ink : Color) (ss : List (Segment α)) :
    Covers (fun x y ↦ ∃ s ∈ ss, ∃ p ∈ samples viewport s, pixelOf? p = some (x, y)) ink c
      (c.paint viewport ink ss) := by
  refine Covers.foldl (fun c s ↦ ?_) ss c
  rw [line_eq_foldl]
  exact Covers.foldl (fun c p ↦ covers_plot c ink p) (samples viewport s) c

/-- Neither the order of lines nor how often one is painted shows. -/
theorem paint_congr {ss ss' : List (Segment α)} (h : ∀ s, s ∈ ss ↔ s ∈ ss') (c : Canvas)
    (viewport : Viewport α) (ink : Color) :
    c.paint viewport ink ss = c.paint viewport ink ss' := by
  have hcovers := covers_paint c viewport ink ss
  have hcovers' := covers_paint c viewport ink ss'
  simp only [← h] at hcovers'
  exact hcovers.unique hcovers'

/-- Only where the ends of lines land on the canvas shows. -/
theorem paint_map {viewport viewport' : Viewport α} {φ : Segment α → Segment α}
    {ss : List (Segment α)}
    (h : ∀ s ∈ ss, viewport'.toPixel (φ s).source = viewport.toPixel s.source ∧
      viewport'.toPixel (φ s).target = viewport.toPixel s.target) (c : Canvas) (ink : Color) :
    c.paint viewport' ink (ss.map φ) = c.paint viewport ink ss := by
  unfold paint
  rw [List.foldl_map]
  induction ss generalizing c with
  | nil => rfl
  | cons s ss ih =>
    have hline : c.line viewport' ink (φ s).source (φ s).target =
        c.line viewport ink s.source s.target := by
      obtain ⟨hsource, htarget⟩ := h s List.mem_cons_self
      rw [line, line, hsource, htarget]
    rw [List.foldl_cons, List.foldl_cons, hline]
    exact ih (fun r hr ↦ h r (List.mem_cons_of_mem s hr)) _

end Painting

end Canvas

/-! ## Turtles on canvases -/

namespace Turtle

variable {α : Type} [Scalar α]

-- Only what is drawn touches the canvas.
theorem medium_call_raster (t : Turtle (Raster α) α) (c : Call α) :
    (t.call c).medium =
      { t.medium with
        canvas :=
          t.medium.canvas.paint t.medium.viewport t.medium.ink (t.pen.stroke? c).toList } := by
  rw [t.medium_call c]
  cases c with
  | perform a =>
    cases a with
    | pop =>
      show (t.pen.restore?.map fun restored ↦ Motion.restored restored.position).elim t.medium
        (Medium.mark t.medium) = t.medium
      cases t.pen.restore? <;> rfl
    | _ => rfl
  | _ => rfl

theorem medium_calls_raster (t : Turtle (Raster α) α) (cs : List (Call α)) :
    (t.calls cs).medium =
      { t.medium with
        canvas := t.medium.canvas.paint t.medium.viewport t.medium.ink (t.pen.strokes cs) } := by
  induction cs generalizing t with
  | nil => rfl
  | cons c cs ih =>
    have htail := ih (t.call c)
    rw [t.pen_call c, t.medium_call_raster c] at htail
    rw [Pen.strokes, Canvas.paint, List.foldl_append]
    exact htail

end Turtle

end LSystem
