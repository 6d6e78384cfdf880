import LSystem.Number.Power
import LSystem.Random.Source

/-!
# What has happened to a source

Sources are made with a seed, make choices, are wound back, get other seeds and are cloned, in any
order.  The past of a source is the seed it was made with and what it has been asked for since; a
clone has the past of the original, and from then on each has its own.  What a source gives next
depends on two things in its past only, the seed that was given last and the number of choices since
the source was last put at the start; between how many places these choices were does not matter
(`choose_source`).
-/

namespace LSystem.Random

/-- What a source can be asked for. -/
inductive Ask where
  | choose (n : Nat)
  | reset
  | setSeed (seed : UInt64)

namespace Ask

def isChoose : Ask → Bool
  | .choose _ => true
  | _ => false

def seed? : Ask → Option UInt64
  | .setSeed seed => some seed
  | _ => none

end Ask

def Source.after (s : Source) : Ask → Source
  | .choose n => (choose s n).2
  | .reset => s.reset
  | .setSeed seed => .ofSeed seed

/-- The seed that a source was made with, and what it has been asked for since, the last first. -/
structure Past where
  made : UInt64
  asks : List Ask := []

namespace Past

def after (p : Past) (a : Ask) : Past := { p with asks := a :: p.asks }

/-- The seed that was given last. -/
def seed (p : Past) : UInt64 := (p.asks.findSome? Ask.seed?).getD p.made

/-- The number of choices since the source was made, wound back or given a seed. -/
def choices (p : Past) : Nat := (p.asks.takeWhile Ask.isChoose).length

/-- The source that a past leads to. -/
def source (p : Past) : Source := p.asks.foldr (fun a s => s.after a) (.ofSeed p.made)

theorem source_after (p : Past) (a : Ask) : (p.after a).source = p.source.after a := rfl

/-- The source after one more ask is known from the seed and the number of choices before. -/
theorem seed_after_source {s : Source} {p : Past} (hseed : s.seed = p.seed)
    (hdrawn : s.drawn = p.choices) (a : Ask) :
    (s.after a).seed = (p.after a).seed ∧ (s.after a).drawn = (p.after a).choices := by
  cases a with
  | choose n =>
    have hnext : (s.after (.choose n)) = s.skip 1 := s.snd_next
    rw [hnext]
    exact ⟨hseed, congrArg (· + 1) hdrawn⟩
  | reset => exact ⟨hseed, rfl⟩
  | setSeed seed => exact ⟨rfl, rfl⟩

theorem source_eq (p : Past) : p.source = (Source.ofSeed p.seed).skip p.choices := by
  have hboth : p.source.seed = p.seed ∧ p.source.drawn = p.choices := by
    rcases p with ⟨made, asks⟩
    induction asks with
    | nil => exact ⟨rfl, rfl⟩
    | cons a asks ih => exact seed_after_source ih.1 ih.2 a
  exact Source.eq_of_drawn_eq hboth.1 (hboth.2.trans (Nat.zero_add _).symm)

/-- The next choice takes the word of the last seed at the place of the choices since. -/
theorem choose_source (p : Past) (n : Nat) :
    (choose p.source n).1 =
      (ChaCha.wordAt (.ofSeed p.seed) p.choices).toNat * n / Number.twoTo 64 := by
  have hword : (choose p.source n).1 = place p.source.next.1 n := rfl
  rw [hword, Source.fst_next, place, Nat.shiftRight_eq_div_pow, p.source_eq]
  change (ChaCha.wordAt (.ofSeed p.seed) (0 + p.choices)).toNat * n / 2 ^ 64 = _
  rw [Nat.zero_add]

end Past

/-! ## Many sources -/

/-- What happens to sources that are numbered in the order in which they appear. -/
inductive Event where
  | make (seed : UInt64)
  | ask (i : Nat) (a : Ask)
  | clone (i : Nat)

/-- Carries out an event on things that are made from seeds and asked.  One that is not there is
neither asked nor cloned. -/
def Event.apply {β : Type} (make : UInt64 → β) (after : β → Ask → β) (pool : List β) :
    Event → List β
  | .make seed => pool ++ [make seed]
  | .ask i a => pool.modify i (after · a)
  | .clone i => pool ++ pool[i]?.toList

def sourcesAfter (events : List Event) : List Source :=
  events.foldl (Event.apply .ofSeed Source.after) []

def pastsAfter (events : List Event) : List Past :=
  events.foldl (Event.apply (fun seed => ⟨seed, []⟩) Past.after) []

theorem map_apply (pasts : List Past) (e : Event) :
    e.apply .ofSeed Source.after (pasts.map Past.source) =
      (e.apply (fun seed => ⟨seed, []⟩) Past.after pasts).map Past.source := by
  cases e with
  | make seed => rw [Event.apply, Event.apply, List.map_append, List.map_singleton]; rfl
  | ask i a =>
    refine List.ext_getElem? fun j => ?_
    simp only [Event.apply, List.getElem?_modify, List.getElem?_map]
    cases pasts[j]? with
    | none => rfl
    | some p => by_cases hij : i = j <;> simp [hij, Past.source_after]
  | clone i =>
    rw [Event.apply, Event.apply, List.map_append, List.getElem?_map]
    cases pasts[i]? <;> rfl

/-- Each source is the one that its own past leads to. -/
theorem sourcesAfter_eq (events : List Event) :
    sourcesAfter events = (pastsAfter events).map Past.source := by
  change events.foldl _ ([].map Past.source) = _
  exact List.foldl_hom (List.map Past.source) map_apply

end LSystem.Random
