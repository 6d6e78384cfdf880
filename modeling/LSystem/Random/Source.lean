import LSystem.Random.ChaCha

/-!
# Random sources

A choice among `n` takes one 64-bit word and maps it onto `0, …, n - 1` by a widening product.  A
`Source` draws its words from the stream of its seed and can be wound back to the start; how far it
is along the stream is the number of words drawn, so what comes next depends on the seed and that
number alone (`fst_next`, `snd_next`).
-/

namespace LSystem.Random

/-- The place in `0, …, n - 1` that a word falls to: its share of the whole range, times `n`. -/
def place (word : UInt64) (n : Nat) : Nat :=
  (word.toNat * n) >>> 64

theorem place_lt (word : UInt64) {n : Nat} (hn : 0 < n) : place word n < n := by
  unfold place
  rw [Nat.shiftRight_eq_div_pow, Nat.div_lt_iff_lt_mul (by decide)]
  exact (Nat.mul_comm n (2 ^ 64)) ▸ Nat.mul_lt_mul_of_pos_right word.toNat_lt hn

/-- Anything that 64-bit words can be drawn from. -/
class WordSource (σ : Type) where
  next : σ → UInt64 × σ

/-- Draws one word and picks a place below `n` by it. -/
@[inline] def choose {σ : Type} [WordSource σ] (s : σ) (n : Nat) : Nat × σ :=
  let (word, s) := WordSource.next s
  (place word n, s)

/-- A position in the stream of a seed.  The block that holds the next word is kept, as eight words
are read from it. -/
structure Source where
  seed : UInt64
  drawn : Nat
  block : Vector UInt64 8
  block_eq : block = ChaCha.block (.ofSeed seed) (UInt64.ofNat (drawn / 8))

namespace Source

/-- The source at the start of the stream of a seed. -/
def ofSeed (seed : UInt64) : Source :=
  { seed, drawn := 0, block := _, block_eq := rfl }

def reset (s : Source) : Source :=
  ofSeed s.seed

def skip (s : Source) (count : Nat) : Source :=
  { seed := s.seed, drawn := s.drawn + count, block := _, block_eq := rfl }

/-- The next word of the stream, and the source after it. -/
def next (s : Source) : UInt64 × Source :=
  (s.block[s.drawn % 8],
    if h : s.drawn % 8 = 7 then s.skip 1
    else
      { s with
        drawn := s.drawn + 1
        block_eq := by rw [s.block_eq, show (s.drawn + 1) / 8 = s.drawn / 8 by omega] })

instance : WordSource Source := ⟨next⟩

/-! ## What a source gives -/

/-- A source is its seed and the number of words drawn. -/
theorem eq_of_drawn_eq {s t : Source} (hseed : s.seed = t.seed) (hdrawn : s.drawn = t.drawn) :
    s = t := by
  obtain ⟨seed, drawn, block, hs⟩ := s
  obtain ⟨seed', drawn', block', ht⟩ := t
  obtain rfl : seed = seed' := hseed
  obtain rfl : drawn = drawn' := hdrawn
  obtain rfl : block = block' := hs.trans ht.symm
  rfl

/-- The next word is the one at the place given by the number of words drawn. -/
theorem fst_next (s : Source) : s.next.1 = ChaCha.wordAt (.ofSeed s.seed) s.drawn := by
  simp only [next, ChaCha.wordAt, s.block_eq]

/-- Drawing a word passes over one. -/
theorem snd_next (s : Source) : s.next.2 = s.skip 1 := by
  unfold next
  split
  · rfl
  · exact eq_of_drawn_eq rfl rfl

end Source

end LSystem.Random
