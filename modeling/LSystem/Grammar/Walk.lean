import LSystem.Grammar.Basic
import LSystem.Plane.Box
import LSystem.Turtle.Basic

/-!
# Walks

A walk goes through a word from left to right.  With rounds left, a symbol that can be replaced is,
and its replacement is walked with one round less before the next symbol's turn; any other symbol is
carried out.  No replaced word is ever put together.  What comes back is the smallest box around all
positions on the way, the first one included.
-/

namespace LSystem.Grammar

open LSystem.Random (WordSource)

variable {α τ σ : Type} [Scalar α] [Performer τ α] [WordSource σ]

/-- Carries out one symbol.  A symbol without an action does nothing. -/
@[inline] def step (g : Grammar) (t : τ) (s : Symbol) : τ :=
  match g.action? s with
  | some a => Performer.perform t a
  | none => t

/-- Carries out a word and gives the box around the position before it and after each symbol. -/
@[specialize] def execute (g : Grammar) (w : Word) (t : τ) : Box α × τ :=
  w.foldl
    (fun (bounds, t) s =>
      let t := g.step t s
      (bounds.grow (Performer.position t), t))
    (Box.single (Performer.position t), t)

/-- The box around what has been walked so far and one more part. -/
@[inline] def join (bounds : Option (Box α)) (part : Box α) : Box α :=
  match bounds with
  | some b => b.union part
  | none => part

@[specialize] def walk (g : Grammar) : (rounds : Nat) → Word → τ → σ → Box α × τ × σ
  | 0, w, t, source =>
    let (bounds, t) := g.execute w t
    (bounds, t, source)
  | rounds + 1, w, t, source =>
    let (bounds, t, source) := w.foldl
      (fun (bounds, t, source) s =>
        match g.rewrite? s source with
        | some (replacement, source) =>
          let (part, t, source) := walk g rounds replacement t source
          (some (join bounds part), t, source)
        | none =>
          let (part, t) := g.execute [s] t
          (some (join bounds part), t, source))
      (none, t, source)
    -- An empty word has no parts; its box is where the walker stands.
    (bounds.getD (Box.single (Performer.position t)), t, source)

end LSystem.Grammar
