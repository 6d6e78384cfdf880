import LSystem.Grammar.Alphabet
import LSystem.Random.Source
import LSystem.Text.Quoted
import LSystem.Turtle.Action

/-!
# Grammars

An alphabet, at most one action for each symbol, the words that may replace it, and the word that
everything starts from.  A symbol without alternatives is terminal.  Looking a symbol up never fails:
one that the grammar does not know has no action and no alternatives.
-/

namespace LSystem

open LSystem.Random (WordSource choose)

/-- Why an action is not bound. -/
inductive GrammarError where
  /-- The character has an action already. -/
  | duplicateAction (char : Char)
  /-- No action has this name. -/
  | unknownAction (name : String)
  deriving DecidableEq, Repr

def GrammarError.message : GrammarError → String
  | .duplicateAction char => "action already defined for symbol '" ++ char.toString ++ "'"
  | .unknownAction name => "unknown turtle action: " ++ Text.quoted name

/-- Symbols with their actions and alternatives, and the initial word.  Both arrays are indexed by the
ids of symbols. -/
structure Grammar where
  alphabet : Alphabet := {}
  actions : Array (Option Action) := #[]
  rules : Array (Array Word) := #[]
  initial : Word := []
  deriving DecidableEq, Repr

namespace Grammar

/-! ## Looking up -/

def symbols (g : Grammar) : List Symbol := g.alphabet.symbols

/-- The symbol of a character, if it is in the alphabet. -/
def symbol? (g : Grammar) (c : Char) : Option Symbol := g.alphabet.symbol? c

def action? (g : Grammar) (s : Symbol) : Option Action := g.actions.getD s.id none

/-- The words that may replace a symbol, in the order they were added. -/
def alternatives (g : Grammar) (s : Symbol) : Array Word := g.rules.getD s.id #[]

theorem alternatives_eq_empty_or_mem (g : Grammar) (s : Symbol) :
    g.alternatives s = #[] ∨ g.alternatives s ∈ g.rules := by
  rw [alternatives, Array.getD_eq_getD_getElem?]
  cases hs : g.rules[s.id]? with
  | none => exact Or.inl rfl
  | some ws => exact Or.inr (Array.mem_of_getElem? hs)

def isTerminal (g : Grammar) (s : Symbol) : Bool := (g.alternatives s).isEmpty

/-- The symbols that never do anything: neither an action nor an alternative. -/
def inert (g : Grammar) : List Symbol :=
  g.symbols.filter fun s => (g.action? s).isNone && g.isTerminal s

/-- A replacement for a symbol, chosen by one draw even if there is only one.  Nothing is drawn for a
terminal symbol. -/
@[specialize] def rewrite? {σ : Type} [WordSource σ] (g : Grammar) (s : Symbol) (source : σ) :
    Option (Word × σ) :=
  let candidates := g.alternatives s
  if candidates.isEmpty then none
  else
    let (k, source) := choose source candidates.size
    some (candidates.getD k [], source)

/-! ## Building -/

def fill {β : Type} (size : Nat) (value : β) (a : Array β) : Array β :=
  a ++ Array.replicate (size - a.size) value

def withAlphabet (g : Grammar) (alphabet : Alphabet) : Grammar :=
  { g with
    alphabet
    actions := fill alphabet.size none g.actions
    rules := fill alphabet.size #[] g.rules }

/-- The symbol of a character, which joins the alphabet if it is new. -/
def intern (g : Grammar) (c : Char) : Symbol × Grammar :=
  (g.alphabet.symbol c, g.withAlphabet (g.alphabet.insert c))

/-- The word of a text, whose characters join the alphabet from left to right. -/
def internWord (g : Grammar) (text : String) : Word × Grammar :=
  let alphabet := g.alphabet.extend text.toList
  (alphabet.word text.toList, g.withAlphabet alphabet)

/-- Gives a character its action.  A character keeps the first action it gets. -/
def bind (g : Grammar) (c : Char) (a : Action) : Except GrammarError Symbol × Grammar :=
  let (s, g) := g.intern c
  match g.action? s with
  | some _ => (.error (.duplicateAction c), g)
  | none => (.ok s, { g with actions := g.actions.setIfInBounds s.id (some a) })

def isBound (g : Grammar) (c : Char) : Bool :=
  match g.symbol? c with
  | some s => (g.action? s).isSome
  | none => false

/-- Gives a character the action of a name.  That the character has one already is seen first. -/
def bindNamed (g : Grammar) (c : Char) (name : String) : Except GrammarError Symbol × Grammar :=
  if g.isBound c then (.error (.duplicateAction c), g)
  else match Action.ofName? name with
    | some a => g.bind c a
    | none => (.error (.unknownAction name), g)

/-- Sets the word that everything starts from. -/
def setInitial (g : Grammar) (text : String) : Grammar :=
  let (w, g) := g.internWord text
  { g with initial := w }

/-- Adds a word that may replace a character.  The same word may be added again and then counts
twice. -/
def addRule (g : Grammar) (c : Char) (text : String) : Grammar :=
  let (s, g) := g.intern c
  -- The character itself joins first, so that its id comes before those of its word.
  let (w, g) := g.internWord text
  { g with rules := g.rules.modify s.id (·.push w) }

end Grammar

end LSystem
