import LSystem.Number.Power
import LSystem.Plane.Viewport
import LSystem.Turtle.Basic

/-!
# Canvases

A canvas is a rectangle of coloured pixels.  A line is painted by samples at most one pixel apart;
each sample colours the pixel it falls in, and one that falls outside the canvas colours none.
-/

namespace LSystem

/-- Red, green, blue and opacity. -/
structure Color where
  red : UInt8
  green : UInt8
  blue : UInt8
  opacity : UInt8
  deriving DecidableEq, Repr, Inhabited

def Color.white : Color := ⟨255, 255, 255, 255⟩

def Color.black : Color := ⟨0, 0, 0, 255⟩

/-- Pixels row by row, from the top. -/
structure Canvas where
  width : Nat
  height : Nat
  pixels : Array Color
  size_pixels : pixels.size = width * height

namespace Canvas

def blank (width height : Nat) (background : Color) : Canvas :=
  { width, height
    pixels := Array.replicate (width * height) background
    size_pixels := Array.size_replicate }

def pixel? (c : Canvas) (x y : Nat) : Option Color :=
  if x < c.width ∧ y < c.height then c.pixels[y * c.width + x]? else none

def setPixel : Canvas → (x y : Nat) → Color → Canvas
  | ⟨width, height, pixels, size_pixels⟩, x, y, color =>
    if x < width ∧ y < height then
      ⟨width, height, pixels.setIfInBounds (y * width + x) color, by
        rw [Array.size_setIfInBounds, size_pixels]⟩
    else
      ⟨width, height, pixels, size_pixels⟩

section Painting

variable {α : Type} [Scalar α]

def maxCoordinate : Int := Number.twoTo 32 - 1

/-- The pixel that a sample falls in.  Left of the canvas and above it there is none. -/
@[inline] def pixelOf? (p : Point α) : Option (Nat × Nat) :=
  -- What is no number falls through the test and then to the pixel zero.
  let x := Scalar.floor p.x
  let y := Scalar.floor p.y
  if x < 0.0 || y < 0.0 then none
  else
    some ((Scalar.wholePart 0 maxCoordinate x).toNat, (Scalar.wholePart 0 maxCoordinate y).toNat)

/-- Colours the pixel that a sample falls in. -/
@[inline] def plot (c : Canvas) (ink : Color) (p : Point α) : Canvas :=
  match pixelOf? p with
  | some (x, y) => c.setPixel x y ink
  | none => c

/-- How many steps a line of this extent takes: enough that none is longer than a pixel. -/
def lineSteps (extent : Point α) : α :=
  Scalar.greatest
    (Scalar.ceil (Scalar.greatest (Scalar.abs extent.x) (Scalar.abs extent.y))) 1.0

@[inline] def sample (first extent : Point α) (steps : α) (i : Nat) : Point α :=
  first + extent.scale (Scalar.ofNat i / steps)

/-- Paints a line of the plane.  One that is infinitely long leaves nothing. -/
@[specialize] def line (c : Canvas) (viewport : Viewport α) (ink : Color) (source target : Point α) :
    Canvas :=
  let first := viewport.toPixel source
  let extent := viewport.toPixel target - first
  let steps := lineSteps extent
  if Scalar.isFinite steps then
    let count := (Scalar.wholePart 0 (Number.twoTo 64 - 1) steps).toNat
    Nat.fold (count + 1) (fun i _ c => c.plot ink (sample first extent steps i)) c
  else c

end Painting

end Canvas

/-- A canvas with what it takes to paint lines of the plane on it. -/
structure Raster (α : Type) where
  canvas : Canvas
  viewport : Viewport α
  ink : Color

namespace Raster

variable {α : Type} [Scalar α]

@[specialize] def mark : Raster α → Motion α → Raster α
  | ⟨canvas, viewport, ink⟩, .drawn source target =>
    ⟨canvas.line viewport ink source target, viewport, ink⟩
  | r, _ => r

instance : Medium (Raster α) α := ⟨mark⟩

end Raster

end LSystem
