import LSystem.Proofs.Figure.Pages
import LSystem.Proofs.Media.Canvas

/-! The canvas of a figure shows the segments that its record holds, and nothing else. -/

namespace LSystem.Figure

variable {α : Type} [Scalar α] {f : Figure α} {rounds : Nat} {options : Options α}

theorem canvas_pass (f : Figure α) (r : Raster α) (rounds : Nat) :
    (f.pass r rounds).turtle.medium.canvas =
      r.canvas.paint r.viewport r.ink (f.record rounds).value.segments.toList := by
  rw [turtle_pass, Turtle.medium_calls_raster, segments_record]
  rfl

theorem raster_eq_ok {canvas : Canvas} (h : (f.raster rounds options).value = .ok canvas) :
    ∃ n, f.checkBudget rounds options = .ok n ∧
      ¬ (options.canvasSize.1 = 0 ∨ options.canvasSize.2 = 0) := by
  unfold raster at h
  dsimp only at h
  split at h
  · nomatch h
  · rename_i hsize
    cases hbudget : f.checkBudget rounds options with
    | error error =>
      rw [hbudget] at h
      nomatch h
    | ok n => exact ⟨n, rfl, hsize⟩

/-- The canvas that the lines of a figure are painted on, and where its viewport takes them. -/
theorem raster_eq_paint (f : Figure α) {canvas : Canvas}
    (h : (f.raster rounds options).value = .ok canvas) {b : Box α}
    (hb : (f.record rounds).value.bounds = some b) :
    canvas = (Canvas.blank options.canvasSize.1 options.canvasSize.2 options.background).paint
      (Viewport.fit b (Scalar.ofNat options.canvasSize.1) (Scalar.ofNat options.canvasSize.2)
        options.canvasMargin) options.ink (f.record rounds).value.segments.toList := by
  obtain ⟨n, hbudget, hsize⟩ := raster_eq_ok h
  rw [raster_eq hbudget hsize, Except.ok.injEq, canvas_pass] at h
  rw [bounds_record, Option.some.injEq] at hb
  rw [← h, ← hb]
  rfl

/-- A canvas depends on the set of the segments that are drawn.  Lines in one colour look the same
in any order and however often each of them is painted; a turtle that does not draw leaves its canvas
as it is, and a sample colours a pixel of the canvas or nothing.  So the canvas of a figure, which has
the size that is asked for, is a blank one with the recorded segments painted on it, fitted to the
recorded box: a pixel that some segment has a sample in has the colour of the ink, and any other one
that of the background. -/
theorem raster_paints_segments :
    (∀ (c : Canvas) (viewport : Viewport α) (ink : Color) (ss ss' : List (Segment α)),
      (∀ s, s ∈ ss ↔ s ∈ ss') → c.paint viewport ink ss = c.paint viewport ink ss') ∧
    (∀ (t : Turtle (Raster α) α) (a : Action), a ≠ .draw → (t.perform a).medium = t.medium) ∧
    (∀ (c : Canvas) (ink : Color) (p : Point α), c.plot ink p = c ∨
      ∃ x y, x < c.width ∧ y < c.height ∧ c.plot ink p = c.setPixel x y ink) ∧
    ∀ (f : Figure α) (rounds : Nat) (options : Options α) (canvas : Canvas),
      (f.raster rounds options).value = .ok canvas →
      ∃ b, (f.record rounds).value.bounds = some b ∧
        let width := options.canvasSize.1
        let height := options.canvasSize.2
        let viewport := Viewport.fit b (Scalar.ofNat width) (Scalar.ofNat height)
          options.canvasMargin
        let segments := (f.record rounds).value.segments
        canvas.width = width ∧ canvas.height = height ∧
          (∀ ss : List (Segment α), (∀ s, s ∈ ss ↔ s ∈ segments) →
            canvas =
              (Canvas.blank width height options.background).paint viewport options.ink ss) ∧
          ∀ x y, x < width → y < height →
            (canvas.pixel? x y = some options.ink ↔ options.background = options.ink ∨
              ∃ s ∈ segments, ∃ p ∈ Canvas.samples viewport s, Canvas.pixelOf? p = some (x, y)) ∧
            (canvas.pixel? x y ≠ some options.ink →
              canvas.pixel? x y = some options.background) := by
  refine ⟨fun c viewport ink ss ss' h ↦ Canvas.paint_congr h c viewport ink, ?_, Canvas.plot_eq_or,
    ?_⟩
  · intro t a ha
    have hcall := t.medium_call_raster (.perform a)
    have hstroke : t.pen.stroke? (.perform a) = none := by
      cases a with
      | draw => exact absurd rfl ha
      | _ => rfl
    rw [hstroke] at hcall
    exact hcall
  · intro f rounds options canvas h
    refine ⟨(f.dryRun rounds).value, f.bounds_record rounds, ?_⟩
    intro width height viewport segments
    have hpaint : canvas = (Canvas.blank width height options.background).paint viewport options.ink
        segments.toList := f.raster_eq_paint h (f.bounds_record rounds)
    have hcovers := Canvas.covers_paint (.blank width height options.background) viewport
      options.ink segments.toList
    rw [← hpaint] at hcovers
    refine ⟨hcovers.width, hcovers.height, fun ss hss ↦ ?_, fun x y hx hy ↦ ?_⟩
    · rw [hpaint]
      exact Canvas.paint_congr (fun s ↦ by rw [hss, Array.mem_toList_iff]) _ _ _
    · have hblank := Canvas.pixel?_blank width height options.background hx hy
      simp only [← Array.mem_toList_iff]
      by_cases hhit : ∃ s ∈ segments.toList, ∃ p ∈ Canvas.samples viewport s,
          Canvas.pixelOf? p = some (x, y)
      · have hink := hcovers.inside hhit
        rw [hblank, Option.map_some] at hink
        exact ⟨iff_of_true hink (Or.inr hhit), fun hne ↦ absurd hink hne⟩
      · have hbackground := hcovers.outside hhit
        rw [hblank] at hbackground
        rw [hbackground]
        exact ⟨⟨fun h ↦ Or.inl (Option.some.inj h), fun h ↦ congrArg some (h.resolve_right hhit)⟩,
          fun _ ↦ rfl⟩

theorem raster_paints_segments_doubling :
    ∃ canvas b, (doubling.raster 2 .standard).value = .ok canvas ∧
      (doubling.record 2).value.bounds = some b ∧ canvas.width = 1024 ∧
      canvas = (Canvas.blank 1024 1024 .white).paint
        (Viewport.fit b (Scalar.ofNat 1024) (Scalar.ofNat 1024) 16.0) .black
        ((doubling.record 2).value.segments.toList ++
          (doubling.record 2).value.segments.toList.reverse) := by
  let options : Options Float := .standard
  have hsize : ¬ (options.canvasSize.1 = 0 ∨ options.canvasSize.2 = 0) := by decide
  have hraster := raster_eq checkBudget_doubling hsize
  obtain ⟨b, hbounds, hwidth, -, hsame, -⟩ :=
    raster_paints_segments.2.2.2 doubling 2 .standard _ hraster
  refine ⟨_, b, hraster, hbounds, hwidth, hsame _ fun s ↦ ?_⟩
  simp

end LSystem.Figure
