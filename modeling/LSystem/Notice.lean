import LSystem.Number.Text
import LSystem.Plane.Viewport
import LSystem.Text.Quoted

/-!
# Notices

Things worth telling that are no failures: symbols that do nothing, poses that were not there to go
back to, and how large and where a drawing is.
-/

namespace LSystem

/-- How much a notice matters. -/
inductive Level where
  | warn
  | debug
  deriving DecidableEq, Repr

def Level.name : Level → String
  | .warn => "WARN"
  | .debug => "DEBUG"

/-- Something worth telling. -/
inductive Notice (α : Type) where
  /-- A turtle that remembered no pose was told to go back to one. -/
  | unmatchedPop (position : Point α)
  /-- These characters have neither an action nor an alternative. -/
  | inert (characters : String)
  /-- The box that a run without drawing went through. -/
  | dryRun (rounds : Nat) (bounds : Box α)
  /-- How a drawing is brought onto its page. -/
  | pageFit (viewport : Viewport α)
  deriving Repr

namespace Notice

def level {α : Type} : Notice α → Level
  | unmatchedPop _ | inert _ => .warn
  | dryRun _ _ | pageFit _ => .debug

def pairText (p : Point Float) : String :=
  "(" ++ Number.plainText p.x ++ ", " ++ Number.plainText p.y ++ ")"

def text : Notice Float → String
  | unmatchedPop p => "turtle pop with empty stack at " ++ pairText p ++ "; ignored"
  | inert characters =>
    "symbols with neither action nor rule are ignored: " ++ Text.quoted characters
  | dryRun rounds b =>
    "dry run (" ++ toString rounds ++ " rounds): min=" ++ pairText b.low ++
      " max=" ++ pairText b.high
  | pageFit v =>
    "page viewport: scale=" ++ Number.plainText v.scale ++
      " translation=" ++ pairText v.translation

end Notice

end LSystem
