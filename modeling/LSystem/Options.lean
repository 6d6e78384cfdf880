import LSystem.Media.Canvas

/-!
# Options

What a page and a canvas look like, and how much a run may do.
-/

namespace LSystem

/-- Settings of pages and canvases, and limits of runs. -/
structure Options (α : Type) where
  /-- Width and height of a page, in points. -/
  pageSize : α × α
  /-- What stays free on each side of a page. -/
  pageMargin : α
  /-- The width of lines on a page, in points. -/
  lineWidth : α
  /-- Width and height of a canvas, in pixels. -/
  canvasSize : Nat × Nat
  /-- What stays free on each side of a canvas. -/
  canvasMargin : α
  background : Color
  ink : Color
  /-- The largest bound on the number of symbols that is run. -/
  maxSymbols : Nat
  /-- The largest number of rounds that is run. -/
  maxRounds : Nat
  deriving DecidableEq, Repr

/-- A letter page and a square canvas, black on white. -/
def Options.standard {α : Type} [Scalar α] : Options α where
  pageSize := (612.0, 792.0)
  pageMargin := 36.0
  lineWidth := 1.0
  canvasSize := (1024, 1024)
  canvasMargin := 16.0
  background := .white
  ink := .black
  maxSymbols := 50000000
  maxRounds := 1024

end LSystem
