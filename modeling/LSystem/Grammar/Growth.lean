import LSystem.Grammar.Basic
import LSystem.Number.Power

/-!
# How much a word can grow

An upper bound on the number of symbols a walk carries out, found without walking.  A table holds for
each symbol how many symbols it can become; one more round replaces each entry by the largest sum
over the symbol's alternatives.  Counts stop at the largest 128-bit number.
-/

namespace LSystem.Grammar

def maxCount : Nat := Number.twoTo 128 - 1

def addCount (a b : Nat) : Nat := min (a + b) maxCount

/-- What a word becomes, by a table of what each symbol becomes.  A symbol beyond the table stays one
symbol. -/
def wordCount (table : Array Nat) (w : Word) : Nat :=
  w.foldl (fun count s => addCount count (table.getD s.id 1)) 0

def nextTable (g : Grammar) (table : Array Nat) : Array Nat :=
  (g.symbols.map fun s =>
    let candidates := g.alternatives s
    if candidates.isEmpty then 1
    else candidates.foldl (fun count w => max count (wordCount table w)) 0).toArray

/-- The table after some rounds.  Once a round changes nothing, no further one does. -/
def tableAfter (g : Grammar) : (rounds : Nat) → Array Nat → Array Nat
  | 0, table => table
  | rounds + 1, table =>
    let next := g.nextTable table
    if next = table then table else tableAfter g rounds next

/-- A bound on how many symbols a walk of `w` for `rounds` rounds carries out. -/
def bound (g : Grammar) (w : Word) (rounds : Nat) : Nat :=
  wordCount (g.tableAfter rounds (Array.replicate g.alphabet.size 1)) w

/-! ## The length of tables -/

theorem size_nextTable (g : Grammar) (table : Array Nat) :
    (g.nextTable table).size = g.alphabet.size := by
  simp [nextTable, symbols]

theorem size_tableAfter (g : Grammar) (rounds : Nat) {table : Array Nat}
    (h : table.size = g.alphabet.size) : (g.tableAfter rounds table).size = g.alphabet.size := by
  induction rounds generalizing table with
  | zero => exact h
  | succ rounds ih =>
    rw [tableAfter]
    split
    · exact h
    · exact ih (g.size_nextTable table)

end LSystem.Grammar
