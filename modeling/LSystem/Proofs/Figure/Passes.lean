import LSystem.Figure.Render
import LSystem.Proofs.PostScript.Painting
import LSystem.Proofs.Walk.DepthFirst

/-!
# The passes over a figure

All passes over a figure with the same rounds go the same way, whatever they draw on.  So a dry run
tells the box of every drawing, and the pass that draws goes through the positions that its viewport
was fitted to.
-/

namespace LSystem

open LSystem.PostScript (Paints Path paints_callsText prologue trailer)
open LSystem.PostScript.Path (callsText)
open LSystem.Random (WordSource)

variable {α : Type} [Scalar α]

theorem Setup.agree_walk {μ ν σ : Type} [Medium μ α] [Medium ν α] [WordSource σ] (s : Setup α)
    (g : Grammar) (rounds : Nat) (w : Word) (t : Turtle μ α) (u : Turtle ν α) (source : σ) :
    Agree (fun (t : Turtle μ α) (u : Turtle ν α) => t.pen = u.pen)
      (g.walk rounds w (s.apply t) source) (g.walk rounds w (s.apply u) source) :=
  Turtle.simulates_pen.walk g rounds w ((s.pen_apply t).trans (s.pen_apply u).symm) source

theorem Setup.log_apply {μ ν σ : Type} [Medium μ α] [Medium ν α] [WordSource σ] (s : Setup α)
    (g : Grammar) (rounds : Nat) (w : Word) (t : Turtle μ α) (u : Turtle ν α) (source : σ) :
    g.log rounds w (s.apply t) source = g.log rounds w (s.apply u) source :=
  Turtle.simulates_pen.log g rounds w ((s.pen_apply t).trans (s.pen_apply u).symm) source

namespace Figure

variable {μ ν : Type} [Medium μ α] [Medium ν α]

/-! ## What a pass does -/

/-- The word that a pass carries out in the end. -/
def leaves (f : Figure α) (rounds : Nat) : Word :=
  (f.grammar.expand rounds f.grammar.initial f.source.reset).1

def calls (f : Figure α) (rounds : Nat) : List (Call α) :=
  .setUnits f.setup.step f.setup.angle :: .place ⟨f.setup.start, f.setup.heading⟩ ::
    (f.grammar.calls (f.leaves rounds)).map .perform

/-- The actions of a pass, each with the position it leads to. -/
def log (f : Figure α) (medium : μ) (rounds : Nat) : List (Action × Point α) :=
  f.grammar.log rounds f.grammar.initial (f.setup.apply (Turtle.on medium)) f.source.reset

theorem turtle_pass_eq_carry (f : Figure α) (medium : μ) (rounds : Nat) :
    (f.pass medium rounds).turtle =
      f.grammar.carry (f.leaves rounds) (f.setup.apply (Turtle.on medium)) :=
  congrArg Prod.fst (f.grammar.snd_walk rounds f.grammar.initial _ f.source.reset)

theorem turtle_pass (f : Figure α) (medium : μ) (rounds : Nat) :
    (f.pass medium rounds).turtle = (Turtle.on medium).calls (f.calls rounds) := by
  rw [turtle_pass_eq_carry, Grammar.carry_eq_foldl_calls]
  exact (Turtle.calls_perform _ _).symm

theorem bounds_pass (f : Figure α) (m : μ) (n : ν) (rounds : Nat) :
    (f.pass m rounds).bounds = (f.pass n rounds).bounds :=
  (f.setup.agree_walk f.grammar rounds f.grammar.initial (Turtle.on m) (Turtle.on n) _).1

theorem log_eq (f : Figure α) (m : μ) (n : ν) (rounds : Nat) : f.log m rounds = f.log n rounds :=
  f.setup.log_apply f.grammar rounds f.grammar.initial (Turtle.on m) (Turtle.on n) _

theorem bounds_record (f : Figure α) (rounds : Nat) :
    (f.record rounds).value.bounds = some (f.dryRun rounds).value :=
  congrArg some (f.bounds_pass {} (⟨⟩ : Silent) rounds)

/-! ## Pages -/

/-- What stands before the path of a page: the page is fitted to the box of the dry run. -/
def pagePrologue (f : Figure α) (rounds : Nat) (title : String) (options : Options α) : String :=
  let bounds := (f.dryRun rounds).value
  let viewport := Viewport.fit bounds options.pageSize.1 options.pageSize.2 options.pageMargin
  prologue title bounds viewport options.lineWidth

/-- The path that the second pass of a page draws. -/
def pagePath (f : Figure α) (rounds : Nat) (title : String) (options : Options α) (sink : Sink) :
    Path :=
  { sink := (sink.write (f.pagePrologue rounds title options)).2 }

/-- The whole text of a page. -/
def pageText (f : Figure α) (rounds : Nat) (title : String) (options : Options α) : String :=
  f.pagePrologue rounds title options ++ callsText (Pen.initial : Pen α) (f.calls rounds) ++ trailer

/-- What writing the path and the trailer of a page comes to. -/
def pageEnd (f : Figure α) (rounds : Nat) (title : String) (options : Options α) (sink : Sink) :
    Option WriteError × Sink :=
  writeNext (f.pass (f.pagePath rounds title options sink) rounds).turtle.medium.finish trailer

variable {f : Figure α} {rounds n : Nat} {options : Options α}

theorem eps_of_written (h : f.checkBudget rounds options = .ok n) {title : String} {sink : Sink}
    (hsink : (sink.write (f.pagePrologue rounds title options)).1 = none) :
    (f.eps rounds title options sink).value =
      let (failure, sink) := f.pageEnd rounds title options sink
      (orFailure (f.dryRun rounds).value (failure <|> sink.flush), sink) := by
  have hwrite : sink.write (f.pagePrologue rounds title options) =
      (none, (f.pagePath rounds title options sink).sink) := Prod.ext hsink rfl
  unfold pagePrologue at hwrite
  unfold eps
  simp only [h]
  rw [hwrite]
  rfl

theorem eps_of_unwritten (h : f.checkBudget rounds options = .ok n) {title : String} {sink : Sink}
    {error : WriteError}
    (hsink : (sink.write (f.pagePrologue rounds title options)).1 = some error) :
    (f.eps rounds title options sink).value =
      (.error (.io error), (f.pagePath rounds title options sink).sink) := by
  have hwrite : sink.write (f.pagePrologue rounds title options) =
      (some error, (f.pagePath rounds title options sink).sink) := Prod.ext hsink rfl
  unfold pagePrologue at hwrite
  unfold eps
  simp only [h]
  rw [hwrite]

theorem eps_bounds (h : f.checkBudget rounds options = .ok n) {title : String} {sink : Sink}
    {b : Box α} (hb : (f.eps rounds title options sink).value.1 = .ok b) :
    b = (f.dryRun rounds).value := by
  cases hsink : (sink.write (f.pagePrologue rounds title options)).1 with
  | some error =>
    rw [eps_of_unwritten h hsink] at hb
    nomatch hb
  | none =>
    rw [eps_of_written h hsink] at hb
    change orFailure _ (_ <|> _) = _ at hb
    cases hfailure : ((f.pageEnd rounds title options sink).1 <|>
        (f.pageEnd rounds title options sink).2.flush) with
    | some error =>
      rw [hfailure] at hb
      nomatch hb
    | none =>
      rw [hfailure] at hb
      exact (Except.ok.inj hb).symm

/-- On a sink that can be flushed a page is written as one text. -/
theorem eps_eq_write (h : f.checkBudget rounds options = .ok n) {title : String} {sink : Sink}
    (hflush : sink.flush = none) :
    (f.eps rounds title options sink).value =
      let (failure, sink) := sink.write (f.pageText rounds title options)
      (orFailure (f.dryRun rounds).value failure, sink) := by
  let path := (f.pagePath rounds title options sink).sink
  let body := callsText (Pen.initial : Pen α) (f.calls rounds)
  have htext : sink.write (f.pageText rounds title options) =
      writeNext (writeNext ((sink.write (f.pagePrologue rounds title options)).1, path) body)
        trailer := by
    change writeNext (none, sink) _ = writeNext (writeNext (writeNext (none, sink) _) _) _
    rw [pageText, writeNext_append, writeNext_append]
  cases hsink : (sink.write (f.pagePrologue rounds title options)).1 with
  | some error =>
    rw [eps_of_unwritten h hsink, htext, hsink]
    rfl
  | none =>
    have hpath : path.flush = none := (sink.flush_write _).trans hflush
    have hfinish := Path.finish_calls_eq (Turtle.on (f.pagePath rounds title options sink)) path rfl
      (f.calls rounds)
    rw [← turtle_pass] at hfinish
    have hend : f.pageEnd rounds title options sink =
        sink.write (f.pageText rounds title options) := by
      rw [htext, hsink, pageEnd, hfinish]
      exact congrArg (writeNext · trailer) (orElse_flush ((path.flush_write body).trans hpath))
    rw [eps_of_written h hsink, hend]
    exact congrArg (fun (failure, sink) ↦ (orFailure (f.dryRun rounds).value failure, sink))
      (orElse_flush ((sink.flush_write _).trans hflush))

/-- On a sink that takes everything a page is written to its end, and its path paints what the
turtle draws. -/
theorem eps_paints (h : f.checkBudget rounds options = .ok n) (title : String) (taken : ByteArray) :
    ∃ body : String,
      (f.eps rounds title options { taken }).value =
        (.ok (f.dryRun rounds).value,
          { taken := taken ++ (f.pagePrologue rounds title options ++ body ++ trailer).toUTF8 }) ∧
      Paints body ((Pen.initial : Pen α).strokes (f.calls rounds)) :=
  ⟨callsText Pen.initial (f.calls rounds), eps_eq_write h rfl, paints_callsText rfl _⟩

/-! ## Canvases -/

/-- The blank canvas of the second pass: its viewport is fitted to the box of the dry run. -/
def fittedRaster (f : Figure α) (rounds : Nat) (options : Options α) : Raster α :=
  let (width, height) := options.canvasSize
  { canvas := .blank width height options.background
    viewport := Viewport.fit (f.dryRun rounds).value (Scalar.ofNat width) (Scalar.ofNat height)
      options.canvasMargin
    ink := options.ink }

theorem raster_eq (h : f.checkBudget rounds options = .ok n)
    (hsize : ¬ (options.canvasSize.1 = 0 ∨ options.canvasSize.2 = 0)) :
    (f.raster rounds options).value =
      .ok (f.pass (f.fittedRaster rounds options) rounds).turtle.medium.canvas := by
  unfold raster
  simp only [h, if_neg hsize]
  rfl

/-! ## All media -/

/-- All turtles are the same machine up to what they leave.  Turtles on any two media, blank,
recording, writing or painting, that are set up alike end a walk with the same pen, box and source,
whatever they have done before and whatever fails.  So a dry run, a record and a page give the same
box, and what is drawn on a page or a canvas goes exactly the way of the dry run that it is fitted
to. -/
theorem passes_agree :
    (∀ {μ ν σ : Type} [Medium μ α] [Medium ν α] [WordSource σ] (s : Setup α) (g : Grammar)
      (rounds : Nat) (w : Word) (t : Turtle μ α) (u : Turtle ν α) (source : σ),
      let x := g.walk rounds w (s.apply t) source
      let y := g.walk rounds w (s.apply u) source
      x.2.1.pen = y.2.1.pen ∧ x.1 = y.1 ∧ x.2.2 = y.2.2 ∧
        g.log rounds w (s.apply t) source = g.log rounds w (s.apply u) source) ∧
    ∀ (f : Figure α) (rounds : Nat),
      (f.record rounds).value.bounds = some (f.dryRun rounds).value ∧
      ∀ (options : Options α) (n : Nat), f.checkBudget rounds options = .ok n →
        (∀ title sink b, (f.eps rounds title options sink).value.1 = .ok b →
          b = (f.dryRun rounds).value) ∧
        (∀ title taken, (f.eps rounds title options { taken }).value.1 =
          .ok (f.dryRun rounds).value) ∧
        (∀ title sink, (sink.write (f.pagePrologue rounds title options)).1 = none →
          (f.eps rounds title options sink).value.2 = (f.pageEnd rounds title options sink).2 ∧
          f.log (f.pagePath rounds title options sink) rounds = f.log (⟨⟩ : Silent) rounds) ∧
        (¬ (options.canvasSize.1 = 0 ∨ options.canvasSize.2 = 0) →
          (f.raster rounds options).value =
            .ok (f.pass (f.fittedRaster rounds options) rounds).turtle.medium.canvas ∧
          f.log (f.fittedRaster rounds options) rounds = f.log (⟨⟩ : Silent) rounds) := by
  refine ⟨?_, fun f rounds => ⟨f.bounds_record rounds, fun options n h => ⟨?_, ?_, ?_, ?_⟩⟩⟩
  · intro μ ν σ _ _ _ s g rounds w t u source x y
    rcases s.agree_walk g rounds w t u source with ⟨hbox, hpen, hsource⟩
    exact ⟨hpen, hbox, hsource, s.log_apply g rounds w t u source⟩
  · intro title sink b hb
    exact eps_bounds h hb
  · intro title taken
    rcases eps_paints h title taken with ⟨body, hpage, -⟩
    rw [hpage]
  · intro title sink hsink
    rw [eps_of_written h hsink]
    exact ⟨rfl, f.log_eq _ _ rounds⟩
  · intro hsize
    exact ⟨raster_eq h hsize, f.log_eq _ _ rounds⟩

/-- A line that is drawn twice as long in every round. -/
def doubling : Figure Float :=
  let line : Symbol := ⟨0, 'F'⟩
  { grammar :=
      { alphabet := .extend {} ['F']
        actions := #[some .draw]
        rules := #[#[[line, line]]]
        initial := [line] }
    setup := .standard
    source := .ofSeed 7 }

theorem checkBudget_doubling : doubling.checkBudget 2 .standard = .ok 4 := by
  decide +kernel

theorem passes_agree_doubling :
    doubling.checkBudget 2 .standard = .ok 4 ∧
      (doubling.record 2).value.bounds = some (doubling.dryRun 2).value ∧
      (doubling.eps 2 "line" .standard {}).value.1 = .ok (doubling.dryRun 2).value ∧
      doubling.log (doubling.pagePath 2 "line" .standard {}) 2 = doubling.log (⟨⟩ : Silent) 2 ∧
      doubling.log (doubling.fittedRaster 2 .standard) 2 = doubling.log (⟨⟩ : Silent) 2 := by
  rcases passes_agree.2 doubling 2 with ⟨hbounds, haccepted⟩
  rcases haccepted .standard 4 checkBudget_doubling with ⟨-, heps, hpage, hraster⟩
  exact ⟨checkBudget_doubling, hbounds, heps "line" .empty, (hpage "line" {} rfl).2,
    (hraster (by decide)).2⟩

end Figure

end LSystem
