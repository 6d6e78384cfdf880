import LSystem.Description.Load
import LSystem.Options
import LSystem.Grammar.Growth
import LSystem.Grammar.Walk
import LSystem.Media.Drawing
import LSystem.Media.Sink

/-!
# Figures

A figure is a grammar with the setup of the turtle that draws it and the source that its choices are
made from.  Every pass over a figure winds the source back first, so all passes with the same number
of rounds make the same choices; and as turtles go the same way on every medium, a dry run tells how
large the drawing will be.
-/

namespace LSystem

open LSystem.Random (Source)

/-- A grammar that is ready to be drawn. -/
structure Figure (α : Type) where
  grammar : Grammar
  setup : Setup α
  source : Source

/-- A value with what is worth telling about how it came about. -/
structure Noted (α β : Type) where
  value : β
  notices : List (Notice α) := []

/-- The outcome of work on a figure: what came of it, and the figure with its source moved on. -/
structure Outcome (α β : Type) extends Noted α β where
  figure : Figure α

/-- Why there is no picture. -/
inductive RenderError where
  | io (error : WriteError)
  /-- The document could not be written to its end. -/
  | document (error : WriteError)
  /-- The run could carry out too many symbols. -/
  | tooLarge (bound limit : Nat)
  | tooDeep (rounds limit : Nat)
  | emptyCanvas (width height : Nat)
  deriving DecidableEq, Repr

def RenderError.message : RenderError → String
  | .io error => "i/o error while rendering: " ++ error.message
  | .document error => "serialization error: " ++ error.message
  | .tooLarge bound limit =>
    "expansion may evaluate up to " ++ toString bound ++ " symbols, limit is " ++ toString limit
  | .tooDeep rounds limit =>
    toString rounds ++ " rounds exceed the recursion limit of " ++ toString limit
  | .emptyCanvas width height =>
    "canvas must have non-zero dimensions, got " ++ toString width ++ "x" ++ toString height

namespace Figure

variable {α μ : Type} [Scalar α] [Medium μ α]

def withSeed (f : Figure α) (seed : UInt64) : Figure α :=
  { f with source := .ofSeed seed }

/-- A bound on the symbols that a run of some rounds carries out, if the limits admit it. -/
def checkBudget (f : Figure α) (rounds : Nat) (options : Options α) : Except RenderError Nat :=
  if options.maxRounds < rounds then .error (.tooDeep rounds options.maxRounds)
  else
    let bound := f.grammar.bound f.grammar.initial rounds
    if options.maxSymbols < bound then .error (.tooLarge bound options.maxSymbols)
    else .ok bound

/-- What a pass over a figure leaves. -/
structure Pass (μ α : Type) where
  bounds : Box α
  turtle : Turtle μ α
  source : Source

def Pass.notices (p : Pass μ α) : List (Notice α) :=
  p.turtle.unmatched.toList.map .unmatchedPop

/-- Walks the initial word on a medium, with the source wound back. -/
@[specialize] def pass (f : Figure α) (medium : μ) (rounds : Nat) : Pass μ α :=
  let (bounds, turtle, source) :=
    f.grammar.walk rounds f.grammar.initial (f.setup.apply (Turtle.on medium)) f.source.reset
  { bounds, turtle, source }

def after (f : Figure α) (p : Pass μ α) : Figure α := { f with source := p.source }

def dryRun (f : Figure α) (rounds : Nat) : Outcome α (Box α) :=
  let p : Pass Silent α := f.pass ⟨⟩ rounds
  { value := p.bounds
    notices := p.notices ++ [.dryRun rounds p.bounds]
    figure := f.after p }

def record (f : Figure α) (rounds : Nat) : Outcome α (Drawing α) :=
  let p : Pass (Drawing α) α := f.pass {} rounds
  { value := { p.turtle.medium with bounds := some p.bounds }
    notices := p.notices
    figure := f.after p }

end Figure

namespace Description

/-- The figure that is described.  Without a seed of its own it gets the given one.  Symbols that do
nothing are told of even if the parameters turn out to be wrong. -/
def figure (d : Description) (seed : UInt64) : Noted Float (Except LoadError (Figure Float)) :=
  match d.grammar with
  | .error error => { value := .error error }
  | .ok grammar =>
    { value := d.setup.map fun setup =>
        { grammar, setup, source := .ofSeed (d.seedWord?.getD seed) }
      notices := grammar.notices }

end Description

end LSystem
