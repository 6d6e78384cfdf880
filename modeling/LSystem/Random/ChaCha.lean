/-!
# A stream of random words

The ChaCha function with eight rounds, read as a stream: a key and the number of a block give sixteen
32-bit words, which are read in pairs, low half first, as eight 64-bit words.  The word at any place
of the stream is a function of the key and the place alone (`wordAt`).
-/

namespace LSystem.Random.ChaCha

abbrev Key := Vector UInt32 8

abbrev State := Vector UInt32 16

/-- Bits moved up, those that leave coming back at the bottom. -/
@[inline] def rotateLeft (x : UInt32) (n : UInt32) : UInt32 :=
  (x <<< n) ||| (x >>> (32 - n))

@[inline] def quarterRound (s : State) (i j k l : Fin 16) : State :=
  let a := s[i] + s[j]
  let d := rotateLeft (s[l] ^^^ a) 16
  let c := s[k] + d
  let b := rotateLeft (s[j] ^^^ c) 12
  let a := a + b
  let d := rotateLeft (d ^^^ a) 8
  let c := c + d
  let b := rotateLeft (b ^^^ c) 7
  (((s.set i a).set j b).set k c).set l d

/-- A round on the columns and a round on the diagonals. -/
def doubleRound (s : State) : State :=
  let s := quarterRound s 0 4 8 12
  let s := quarterRound s 1 5 9 13
  let s := quarterRound s 2 6 10 14
  let s := quarterRound s 3 7 11 15
  let s := quarterRound s 0 5 10 15
  let s := quarterRound s 1 6 11 12
  let s := quarterRound s 2 7 8 13
  quarterRound s 3 4 9 14

/-- Four constants, the key, the number of the block and two zeros. -/
def initialState (key : Key) (block : UInt64) : State :=
  #v[0x61707865, 0x3320646e, 0x79622d32, 0x6b206574,
    key[0], key[1], key[2], key[3], key[4], key[5], key[6], key[7],
    block.toUInt32, (block >>> 32).toUInt32, 0, 0]

/-- The words of a block: eight rounds, added to the state they started from. -/
def blockWords (key : Key) (block : UInt64) : State :=
  let start := initialState key block
  let mixed := doubleRound (doubleRound (doubleRound (doubleRound start)))
  Vector.ofFn fun i => mixed[i] + start[i]

def block (key : Key) (number : UInt64) : Vector UInt64 8 :=
  let words := blockWords key number
  Vector.ofFn fun i =>
    words[2 * i.val].toUInt64 ||| (words[2 * i.val + 1].toUInt64 <<< 32)

def wordAt (key : Key) (place : Nat) : UInt64 :=
  (block key (UInt64.ofNat (place / 8)))[place % 8]

/-! ## From a seed to a key -/

/-- The step of the generator that spreads a seed over a key. -/
def nextSeed (seed : UInt64) : UInt64 :=
  seed * 6364136223846793005 + 11634580027462260723

/-- What is read off that generator: high bits folded in, then rotated by the topmost ones. -/
def seedWord (seed : UInt64) : UInt32 :=
  let folded := (((seed >>> 18) ^^^ seed) >>> 27).toUInt32
  let turn := (seed >>> 59).toUInt32
  -- A turn by nothing shifts by nothing on both sides.
  (folded >>> turn) ||| (folded <<< ((32 - turn) % 32))

def seedWords : (count : Nat) → UInt64 → List UInt32
  | 0, _ => []
  | count + 1, seed =>
    let seed := nextSeed seed
    seedWord seed :: seedWords count seed

theorem length_seedWords (count : Nat) (seed : UInt64) :
    (seedWords count seed).length = count := by
  induction count generalizing seed with
  | zero => rfl
  | succ count ih => simp [seedWords, ih]

def Key.ofSeed (seed : UInt64) : Key :=
  ⟨(seedWords 8 seed).toArray, by simp [length_seedWords]⟩

end LSystem.Random.ChaCha
