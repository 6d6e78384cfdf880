import LSystem.Random.Source
import LSystem.Number.Power
import Mathlib.Data.Stream.Init

/-!
# The places that words fall to

A choice among `n` puts a drawn word at a place below `n`.  As long as there are no more places than
words, every place is met by some word (`exists_place_eq`), so whatever can be chosen is chosen by
some draws.  Draws given in advance are a source as well.
-/

namespace LSystem.Random

/-- Draws that have been made in advance. -/
instance : WordSource (Stream' UInt64) := ⟨fun draws => (draws.head, draws.tail)⟩

theorem next_cons (draw : UInt64) (rest : Stream' UInt64) :
    WordSource.next (Stream'.cons draw rest) = (draw, rest) := rfl

/-- The least word that falls to a place is its share of the whole range, rounded up. -/
theorem exists_place_eq {n k : Nat} (hn : n ≤ Number.twoTo 64) (hk : k < n) :
    ∃ word : UInt64, place word n = k := by
  let least := (k * 2 ^ 64 + (n - 1)) / n
  have hbelow : least * n ≤ k * 2 ^ 64 + (n - 1) := Nat.div_mul_le_self _ _
  have habove : k * 2 ^ 64 ≤ least * n := by
    have hdiv := Nat.lt_div_mul_add (a := k * 2 ^ 64 + (n - 1)) (b := n) (by omega)
    have hleast : (k * 2 ^ 64 + (n - 1)) / n * n = least * n := rfl
    omega
  have hnext : k * 2 ^ 64 + (n - 1) < (k + 1) * 2 ^ 64 := by
    change n ≤ 2 ^ 64 at hn
    omega
  have hlt : least < 2 ^ 64 := by
    have htop : (k + 1) * 2 ^ 64 ≤ n * 2 ^ 64 := Nat.mul_le_mul_right _ hk
    have hmul : least * n < 2 ^ 64 * n := by
      rw [Nat.mul_comm (2 ^ 64) n]
      omega
    exact Nat.lt_of_mul_lt_mul_right hmul
  refine ⟨UInt64.ofNat least, ?_⟩
  rw [place, UInt64.toNat_ofNat_of_lt' hlt, Nat.shiftRight_eq_div_pow]
  exact Nat.div_eq_of_lt_le habove (by omega)

end LSystem.Random
