import LSystem.Proofs.Figure.Canvases
import LSystem.Proofs.Figure.Trace
import LSystem.Proofs.Turtle.Similarity

/-!
# Pictures do not move

Where a figure starts and how long its step is shows in its record, which is stretched and shifted
with it, but not in a picture, since a picture is fitted to the box of the drawing.
-/

namespace LSystem.Figure

variable {K : Type} [Field K] [LinearOrder K]

/-- A figure that starts at the image of its start, with a step that is as much longer as the plane
is wider. -/
def image (m : Similarity K) (f : Figure K) : Figure K :=
  { f with
    setup := { f.setup with start := m.image f.setup.start, step := f.setup.step * m.factor } }

variable [FloorRing K] (direction : K → K × K) (sqrt : K → K)

theorem traceBounds?_record_exact (f : Figure K) (rounds : Nat) :
    letI := Scalar.exact K direction sqrt
    (f.record rounds).value.traceBounds? = (f.record rounds).value.bounds := by
  let := Scalar.exact K direction sqrt
  exact traceBounds?_record (ordered_exact direction sqrt).weak f rounds
    fun _ _ ↦ ⟨trivial, trivial⟩

theorem holds_of_mem_trace (f : Figure K) (rounds : Nat) {b : Box K} {p : Point K} :
    letI := Scalar.exact K direction sqrt
    (f.record rounds).value.bounds = some b → p ∈ (f.record rounds).value.trace → b.Holds p := by
  let := Scalar.exact K direction sqrt
  intro hb hp
  rw [← f.traceBounds?_record_exact direction sqrt] at hb
  exact Box.holds_around? (ordered_exact direction sqrt).weak hb (fun _ _ ↦ ⟨trivial, trivial⟩)
    (Array.mem_toList_iff.mpr hp)

variable [IsStrictOrderedRing K]

/-- What the image of a figure draws is the image of what the figure draws. -/
theorem record_image (m : Similarity K) (f : Figure K) (rounds : Nat) :
    letI := Scalar.exact K direction sqrt
    ((f.image m).record rounds).value = m.drawing (f.record rounds).value := by
  let := Scalar.exact K direction sqrt
  let t : Turtle (Drawing K) K := f.setup.apply (Turtle.on {})
  let u : Turtle (Drawing K) K := (f.image m).setup.apply (Turtle.on {})
  have hstart : m.Images t u := ⟨rfl, m.drawing_mark {} (.placed ⟨f.setup.start, f.setup.heading⟩)⟩
  have hmedium : ((f.image m).pass ({} : Drawing K) rounds).turtle.medium =
      m.drawing (f.pass ({} : Drawing K) rounds).turtle.medium := by
    rw [turtle_pass_eq_carry, turtle_pass_eq_carry]
    exact (hstart.carry direction sqrt f.grammar (f.leaves rounds)).medium
  -- The box is the one around the trace, so its image is the box around the image of the trace.
  have hbounds : ((f.image m).record rounds).value.bounds =
      (f.record rounds).value.bounds.map m.box := by
    have htrace : ((f.image m).record rounds).value.trace.toList =
        (f.record rounds).value.trace.toList.map m.image := by
      rw [← Array.toList_map]
      exact congrArg (fun d : Drawing K ↦ d.trace.toList) hmedium
    rw [← traceBounds?_record_exact direction sqrt, ← traceBounds?_record_exact direction sqrt,
      Drawing.traceBounds?, htrace]
    exact m.around?_map_image direction sqrt _
  have hrecord : ((f.image m).record rounds).value =
      { m.drawing (f.pass ({} : Drawing K) rounds).turtle.medium with
        bounds := ((f.image m).record rounds).value.bounds } := by
    rw [← hmedium]
    rfl
  rw [hrecord, hbounds]
  rfl

theorem raster_image (m : Similarity K) (f : Figure K) (rounds : Nat) (options : Options K) :
    letI := Scalar.exact K direction sqrt
    ((f.image m).raster rounds options).value = (f.raster rounds options).value := by
  let := Scalar.exact K direction sqrt
  have hbudget : (f.image m).checkBudget rounds options = f.checkBudget rounds options := rfl
  by_cases hsize : options.canvasSize.1 = 0 ∨ options.canvasSize.2 = 0
  · simp only [raster, if_pos hsize]
  cases h : f.checkBudget rounds options with
  | error error => simp only [raster, if_neg hsize, hbudget, h]
  | ok n =>
    rw [raster_eq h hsize, raster_eq (hbudget.trans h) hsize, canvas_pass, canvas_pass]
    have hrecord := f.record_image direction sqrt m rounds
    have hbounds := f.bounds_record rounds
    have hdry : ((f.image m).dryRun rounds).value = m.box (f.dryRun rounds).value := by
      have himage := congrArg Drawing.bounds hrecord
      rw [bounds_record] at himage
      exact Option.some.inj (himage.trans (congrArg (Option.map m.box) hbounds))
    have hends (s : Segment K) (hs : s ∈ (f.record rounds).value.segments.toList) :=
      f.ends_mem_trace_record rounds (Array.mem_toList_iff.mp hs)
    have hpixel {p : Point K} (hp : p ∈ (f.record rounds).value.trace) :=
      m.toPixel_fit_image direction sqrt (Scalar.ofNat options.canvasSize.1)
        (Scalar.ofNat options.canvasSize.2) options.canvasMargin
        (f.holds_of_mem_trace direction sqrt rounds hbounds hp)
    refine congrArg Except.ok ?_
    rw [hrecord]
    simp only [fittedRaster, hdry, Similarity.drawing, Array.toList_map]
    exact Canvas.paint_map (fun s hs ↦ ⟨hpixel (hends s hs).1, hpixel (hends s hs).2⟩) _ _

/-- The fitted picture does not depend on where a drawing starts or how long its step is.  If the
start is shifted and the step is stretched, every position, every segment and the box of the record
go to their images; and a viewport that is fitted to the new box takes the image of each position to
where the position itself was taken before, on a surface and on a canvas of any size and with any
margin.  So the canvas stays the same. -/
theorem picture_of_image (f : Figure K) (shift : Point K) {factor : K} (hfactor : 0 < factor)
    (rounds : Nat) :
    let m : Similarity K := ⟨f.setup.start, shift, factor, hfactor⟩
    let changed : Figure K :=
      { f with
        setup :=
          { f.setup with
            start := ⟨f.setup.start.x + shift.x, f.setup.start.y + shift.y⟩
            step := f.setup.step * factor } }
    letI := Scalar.exact K direction sqrt
    (changed.record rounds).value = m.drawing (f.record rounds).value ∧
      (∃ b, (f.record rounds).value.bounds = some b ∧
        ∀ width height margin : K, ∀ p ∈ (f.record rounds).value.trace,
          (Viewport.fit (m.box b) width height margin).toSurface (m.image p) =
              (Viewport.fit b width height margin).toSurface p ∧
            (Viewport.fit (m.box b) width height margin).toPixel (m.image p) =
              (Viewport.fit b width height margin).toPixel p) ∧
      ∀ options, (changed.raster rounds options).value = (f.raster rounds options).value := by
  intro m changed
  have hchanged : changed = f.image m := by
    have haxis (a b : K) : a + b = Similarity.along a b factor a := by
      rw [Similarity.along, sub_self, mul_zero, add_zero]
    simp only [changed, haxis]
    rfl
  let := Scalar.exact K direction sqrt
  rw [hchanged]
  refine ⟨f.record_image direction sqrt m rounds, ⟨_, f.bounds_record rounds, ?_⟩,
    f.raster_image direction sqrt m rounds⟩
  intro width height margin p hp
  have hold := f.holds_of_mem_trace direction sqrt rounds (f.bounds_record rounds) hp
  exact ⟨m.toSurface_fit_image direction sqrt width height margin hold,
    m.toPixel_fit_image direction sqrt width height margin hold⟩

theorem picture_of_image_corner :
    ∃ hfactor : (0 : ℚ) < 2,
      let m : Similarity ℚ := ⟨corner.setup.start, ⟨3, -1⟩, 2, hfactor⟩
      let changed : Figure ℚ :=
        { corner with
          setup :=
            { corner.setup with
              start := ⟨corner.setup.start.x + 3, corner.setup.start.y + -1⟩
              step := corner.setup.step * 2 } }
      let _ : Scalar ℚ := .exact ℚ quarterTurn id
      (changed.record 2).value = m.drawing (corner.record 2).value ∧
        (changed.raster 2 .standard).value = (corner.raster 2 .standard).value := by
  have hfactor : (0 : ℚ) < 2 := by norm_num
  rcases picture_of_image quarterTurn id corner ⟨3, -1⟩ hfactor 2 with ⟨hrecord, -, hraster⟩
  exact ⟨hfactor, hrecord, hraster _⟩

end LSystem.Figure
