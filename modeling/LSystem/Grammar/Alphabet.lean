import LSystem.Number.Power

/-!
# Alphabets

The distinct characters that have been seen, in the order they were first seen.  A symbol is a
character with its id, which is the place of the character in that order.  Beside the symbols in
order an alphabet has two tables that find the symbol of a character: one with a slot for every ASCII
character, and one with entries for the others that have been seen.
-/

namespace LSystem

/-- A character with its place in an alphabet. -/
structure Symbol where
  id : Nat
  char : Char
  deriving DecidableEq, Repr, Inhabited

abbrev Word := List Symbol

def Word.text (w : Word) : String :=
  String.ofList (w.map Symbol.char)

/-- The symbols of the distinct characters seen so far, in the order they were first seen, and the
tables that find them. -/
structure Alphabet where
  order : Array Symbol := #[]
  ascii : Vector (Option Symbol) 128 := .replicate 128 none
  sparse : List (Char × Symbol) := []
  deriving DecidableEq, Repr

namespace Alphabet

def size (a : Alphabet) : Nat := a.order.size

def symbols (a : Alphabet) : List Symbol := a.order.toList

/-- The symbol of a character, if the character has been seen. -/
def symbol? (a : Alphabet) (c : Char) : Option Symbol :=
  if h : c.toNat < 128 then a.ascii[c.toNat] else a.sparse.lookup c

/-- The symbol that a new character gets.  Ids are 32-bit numbers. -/
def fresh (a : Alphabet) (c : Char) : Symbol := ⟨a.size % Number.twoTo 32, c⟩

/-- The symbol that a character has, or would be given if it were new. -/
def symbol (a : Alphabet) (c : Char) : Symbol := (a.symbol? c).getD (a.fresh c)

/-- The alphabet with one more symbol, which is also entered in the table of its character. -/
def push (a : Alphabet) (s : Symbol) : Alphabet :=
  if h : s.char.toNat < 128 then
    { a with order := a.order.push s, ascii := a.ascii.set s.char.toNat (some s) }
  else
    { a with order := a.order.push s, sparse := (s.char, s) :: a.sparse }

/-- The alphabet with a character, which joins at the end if it is new. -/
def insert (a : Alphabet) (c : Char) : Alphabet :=
  match a.symbol? c with
  | some _ => a
  | none => a.push (a.fresh c)

/-- The alphabet with some characters, which join from left to right. -/
def extend (a : Alphabet) (cs : List Char) : Alphabet := cs.foldl insert a

def word (a : Alphabet) (cs : List Char) : Word := cs.map a.symbol

/-! ## One more symbol -/

@[simp] theorem symbols_empty : ({} : Alphabet).symbols = [] := rfl

@[simp] theorem length_symbols (a : Alphabet) : a.symbols.length = a.size := by
  simp [symbols, size]

@[simp] theorem symbols_push (a : Alphabet) (s : Symbol) : (a.push s).symbols = a.symbols ++ [s] := by
  unfold push
  split <;> simp [symbols]

@[simp] theorem symbol?_empty (c : Char) : ({} : Alphabet).symbol? c = none := by
  unfold symbol?
  split <;> simp

theorem symbol?_push (a : Alphabet) (s : Symbol) (c : Char) :
    (a.push s).symbol? c = if s.char = c then some s else a.symbol? c := by
  -- A character is looked up in the table that its own symbol is entered in.
  by_cases heq : s.char = c
  · subst heq
    by_cases hs : s.char.toNat < 128 <;> simp [push, symbol?, hs]
  · have hne : s.char.toNat ≠ c.toNat := fun h => heq (Char.toNat_inj.mp h)
    have hbeq : (c == s.char) = false := beq_false_of_ne (Ne.symm heq)
    by_cases hs : s.char.toNat < 128 <;> by_cases hc : c.toNat < 128 <;>
      simp [push, symbol?, List.lookup_cons, hs, hc, hne, heq, hbeq]

/-- Inserting a character that has been seen changes nothing. -/
theorem insert_of_seen {a : Alphabet} {c : Char} {s : Symbol} (h : a.symbol? c = some s) :
    a.insert c = a := by
  simp only [insert, h]

theorem insert_of_new {a : Alphabet} {c : Char} (h : a.symbol? c = none) :
    a.insert c = a.push (a.fresh c) := by
  simp only [insert, h]

end Alphabet

end LSystem
