import LSystem.Number.Power
import LSystem.Plane.Viewport
import LSystem.PostScript.Literal

/-!
# Pages

What stands before and after the path on an encapsulated page: the header comments with the boxes
that the drawing covers, and the transformation that brings the plane onto the page.
-/

namespace LSystem.PostScript

variable {α : Type} [Scalar α]

/-- A coordinate on the page to the nearest thousandth, so that noise cannot push a whole-number box
out by a point. -/
def snap (a : α) : α := Scalar.round (a * 1e3) / 1e3

/-- The box that a drawing covers on its page, with the width of its lines on all sides. -/
def pageBox (bounds : Box α) (viewport : Viewport α) (lineWidth : α) : Box α :=
  let page := viewport.mapBox bounds
  { low := ⟨snap (page.low.x - lineWidth), snap (page.low.y - lineWidth)⟩
    high := ⟨snap (page.high.x + lineWidth), snap (page.high.y + lineWidth)⟩ }

/-- The smallest whole number that is written. -/
def minInteger : Int := -Number.twoTo 63

/-- The largest whole number that is written. -/
def maxInteger : Int := Number.twoTo 63 - 1

/-- The corners of the smallest box of whole numbers around a box: left, bottom, right and top. -/
def integerCorners (b : Box α) : List Int :=
  [Scalar.wholePart minInteger maxInteger (Scalar.floor b.low.x),
    Scalar.wholePart minInteger maxInteger (Scalar.floor b.low.y),
    Scalar.wholePart minInteger maxInteger (Scalar.ceil b.high.x),
    Scalar.wholePart minInteger maxInteger (Scalar.ceil b.high.y)]

def fineCorners (b : Box α) : List String :=
  [b.low.x, b.low.y, b.high.x, b.high.y].map fun a => (Scalar.fixed 3 a).text

def spaced (words : List String) : String := " ".intercalate words

/-- The name of the program that makes the pages. -/
def creator : String := "lindenmayer"

def prologueLines (title : String) (bounds : Box α) (viewport : Viewport α) (lineWidth : α) :
    List String :=
  let box := pageBox bounds viewport lineWidth
  let scale := (Scalar.fixed 6 viewport.scale).text
  [ "%!PS-Adobe-3.0 EPSF-3.0",
    "%%Title: (" ++ literal title ++ ")",
    "%%Creator: (" ++ creator ++ ")",
    "%%BoundingBox: " ++ spaced ((integerCorners box).map toString),
    "%%HiResBoundingBox: " ++ spaced (fineCorners box),
    "%%LanguageLevel: 2",
    "%%EndComments",
    "",
    spaced [(Scalar.fixed 4 viewport.translation.x).text,
      (Scalar.fixed 4 viewport.translation.y).text, "translate"],
    spaced [scale, scale, "scale"],
    spaced [(Scalar.fixed 6 (lineWidth / viewport.scale)).text, "setlinewidth"],
    "1 setlinecap 1 setlinejoin" ]

def trailerLines : List String := ["showpage", "%%Trailer", "%%EOF"]

def unlines (lines : List String) : String :=
  String.join (lines.map (· ++ "\n"))

def prologue (title : String) (bounds : Box α) (viewport : Viewport α) (lineWidth : α) : String :=
  unlines (prologueLines title bounds viewport lineWidth)

def trailer : String := unlines trailerLines

end LSystem.PostScript
