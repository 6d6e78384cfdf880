import LSystem.Figure.Basic
import LSystem.PostScript.Page
import LSystem.PostScript.Path

/-!
# Rendering figures

A figure as a page of PostScript, as a canvas of pixels, and as a document that records its drawing.
Pages and canvases take two passes: a dry run finds the box that the drawing will need, and a second
pass, which goes exactly the same way, draws it fitted to the surface.
-/

namespace LSystem.Figure

open PostScript (Path prologue trailer)

variable {α : Type} [Scalar α]

/-- Writes a text after what has been written without a failure. -/
def writeNext (state : Option WriteError × Sink) (text : String) : Option WriteError × Sink :=
  match state with
  | (none, sink) => sink.write text
  | failed => failed

def orFailure {β : Type} (value : β) : Option WriteError → Except RenderError β
  | none => .ok value
  | some error => .error (.io error)

/-- Writes a page with the drawing fitted to it, and gives the box of the drawing. -/
def eps (f : Figure α) (rounds : Nat) (title : String) (options : Options α) (sink : Sink) :
    Outcome α (Except RenderError (Box α) × Sink) :=
  match f.checkBudget rounds options with
  | .error error => { value := (.error error, sink), figure := f }
  | .ok _ =>
    let dry := f.dryRun rounds
    let bounds := dry.value
    let (width, height) := options.pageSize
    let viewport := Viewport.fit bounds width height options.pageMargin
    let notices := dry.notices ++ [.pageFit viewport]
    match sink.write (prologue title bounds viewport options.lineWidth) with
    | (some error, sink) => { value := (.error (.io error), sink), notices, figure := dry.figure }
    | (none, sink) =>
      -- The walk cannot be stopped by a failure; what it writes after one is left out.
      let p : Pass Path α := f.pass { sink } rounds
      let (failure, sink) := writeNext p.turtle.medium.finish trailer
      { value := (orFailure bounds (failure <|> sink.flush), sink)
        notices := notices ++ p.notices
        figure := f.after p }

/-- Paints the drawing on a canvas that it is fitted to. -/
def raster (f : Figure α) (rounds : Nat) (options : Options α) :
    Outcome α (Except RenderError Canvas) :=
  let (width, height) := options.canvasSize
  if width = 0 ∨ height = 0 then { value := .error (.emptyCanvas width height), figure := f }
  else
    match f.checkBudget rounds options with
    | .error error => { value := .error error, figure := f }
    | .ok _ =>
      let dry := f.dryRun rounds
      let viewport :=
        Viewport.fit dry.value (Scalar.ofNat width) (Scalar.ofNat height) options.canvasMargin
      let blank : Raster α :=
        { canvas := .blank width height options.background, viewport, ink := options.ink }
      let p : Pass (Raster α) α := f.pass blank rounds
      { value := .ok p.turtle.medium.canvas
        notices := dry.notices ++ p.notices
        figure := f.after p }

/-- Writes the record of the drawing as an indented document and a line end, and gives the record. -/
def json (f : Figure Float) (rounds : Nat) (options : Options Float) (sink : Sink) :
    Outcome Float (Except RenderError (Drawing Float) × Sink) :=
  match f.checkBudget rounds options with
  | .error error => { value := (.error error, sink), figure := f }
  | .ok _ =>
    let drawn := f.record rounds
    let value := match sink.write (drawn.value.toJson.pretty 0) with
      | (some error, sink) => (.error (.document error), sink)
      | (none, sink) =>
        let (failure, sink) := sink.write "\n"
        (orFailure drawn.value failure, sink)
    { value, notices := drawn.notices, figure := drawn.figure }

end LSystem.Figure
