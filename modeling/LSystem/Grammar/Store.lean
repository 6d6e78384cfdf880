import LSystem.Grammar.Basic

/-!
# Grammar stores

A grammar with the source that replacements are chosen from.  A store starts with an empty grammar
and changes only by the requests it serves; a request that is refused is answered with the reason.
-/

namespace LSystem

open LSystem.Random (Source)

/-- What a store can be asked for. -/
inductive Request where
  /-- The symbol of a character. -/
  | intern (c : Char)
  | bind (c : Char) (a : Action)
  | bindNamed (c : Char) (name : String)
  | setInitial (text : String)
  | addRule (c : Char) (text : String)
  /-- Another seed, with the source at its start. -/
  | setSeed (seed : UInt64)
  /-- The source wound back. -/
  | reset
  /-- A replacement for a symbol, which may be any. -/
  | rewrite (s : Symbol)

inductive Answer where
  | symbol (s : Symbol)
  | refused (error : GrammarError)
  | replacement (w : Option Word)
  | done

/-- The symbols that an answer hands out. -/
def Answer.symbols : Answer → List Symbol
  | .symbol s => [s]
  | .replacement (some w) => w
  | _ => []

structure Store where
  grammar : Grammar := {}
  source : Source

namespace Store

def answerBinding (st : Store) : Except GrammarError Symbol × Grammar → Answer × Store
  | (.ok s, grammar) => (.symbol s, { st with grammar })
  | (.error error, grammar) => (.refused error, { st with grammar })

def serve (st : Store) : Request → Answer × Store
  | .intern c =>
    let (s, grammar) := st.grammar.intern c
    (.symbol s, { st with grammar })
  | .bind c a => st.answerBinding (st.grammar.bind c a)
  | .bindNamed c name => st.answerBinding (st.grammar.bindNamed c name)
  | .setInitial text => (.done, { st with grammar := st.grammar.setInitial text })
  | .addRule c text => (.done, { st with grammar := st.grammar.addRule c text })
  | .setSeed seed => (.done, { st with source := .ofSeed seed })
  | .reset => (.done, { st with source := st.source.reset })
  | .rewrite s =>
    match st.grammar.rewrite? s st.source with
    | some (w, source) => (.replacement (some w), { st with source })
    | none => (.replacement none, st)

/-- The store after some requests, whatever was answered to them. -/
def run (st : Store) (requests : List Request) : Store :=
  requests.foldl (fun st r => (st.serve r).2) st

end Store

end LSystem
