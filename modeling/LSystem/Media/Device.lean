import LSystem.Media.Canvas
import LSystem.Media.Drawing
import LSystem.PostScript.Path

/-!
# Devices

A medium of one of the four kinds, for a turtle whose medium is only known when the program runs.
-/

namespace LSystem

/-- A medium of any kind. -/
inductive Device (α : Type) where
  | silent
  | drawing (drawing : Drawing α)
  | path (path : PostScript.Path)
  | raster (raster : Raster α)

namespace Device

variable {α : Type} [Scalar α]

def mark : Device α → Motion α → Device α
  | .silent, _ => .silent
  | .drawing d, m => .drawing (d.mark m)
  | .path p, m => .path (p.mark m)
  | .raster r, m => .raster (r.mark m)

instance : Medium (Device α) α := ⟨mark⟩

end Device

end LSystem
