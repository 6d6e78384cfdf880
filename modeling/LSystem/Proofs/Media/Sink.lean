import LSystem.Figure.Render
import Mathlib.Data.Option.Basic

/-!
# What a sink takes

A sink takes the first bytes of what it is given, as many as it has room for, and reports the rest.
In what portions the bytes come makes no difference (`delivers_iff`): what is written in pieces is
taken, and fails, as if it had been written at once.
-/

namespace LSystem

open Figure (writeNext)

theorem extract_append_of_le {a b : ByteArray} {n : Nat} (h : n ≤ a.size) :
    (a ++ b).extract 0 n = a.extract 0 n := by
  rw [ByteArray.extract_append, Nat.sub_eq_zero_of_le h, Nat.zero_sub, ByteArray.extract_same,
    ByteArray.append_empty]

namespace Sink

variable {s s' : Sink} {n : Nat} {a b bytes : ByteArray} {failure : Option WriteError}

/-! ## Bytes on a sink -/

/-- There is room for so many bytes. -/
def Holds (s : Sink) (n : Nat) : Prop := ∀ room ∈ s.room, n ≤ room

instance (s : Sink) (n : Nat) : Decidable (s.Holds n) := inferInstanceAs (Decidable (∀ _ ∈ _, _))

/-- How many of so many bytes there is room for. -/
def share (s : Sink) (n : Nat) : Nat := s.room.elim n (min · n)

def take (s : Sink) (bytes : ByteArray) : Sink :=
  { s with taken := s.taken ++ bytes, room := s.room.map (· - bytes.size) }

/-- Takes what there is room for, and reports the rest. -/
def put (s : Sink) (bytes : ByteArray) : Option WriteError × Sink :=
  (if s.Holds bytes.size then none else some .full, s.take (bytes.extract 0 (s.share bytes.size)))

theorem take_empty (s : Sink) : s.take .empty = s := by
  rcases s with ⟨taken, _ | room, flushFails⟩ <;> simp [take]

theorem take_append (s : Sink) (a b : ByteArray) : s.take (a ++ b) = (s.take a).take b := by
  simp only [take, ByteArray.append_assoc, ByteArray.size_append, Option.map_map]
  congr 2
  funext room
  exact Nat.sub_add_eq room a.size b.size

theorem holds_append : s.Holds (a ++ b).size ↔ s.Holds a.size ∧ (s.take a).Holds b.size := by
  unfold Holds take
  cases s.room with
  | none => simp
  | some room =>
    simp only [ByteArray.size_append, Option.mem_some_iff, forall_eq', Option.map_some]
    omega

theorem share_append (h : s.Holds a.size) :
    s.share (a ++ b).size = a.size + (s.take a).share b.size := by
  unfold share take
  cases hroom : s.room with
  | none => exact ByteArray.size_append
  | some room =>
    have hfits : a.size ≤ room := h room hroom
    simp only [ByteArray.size_append, Option.map_some, Option.elim_some]
    omega

theorem put_of_holds (h : s.Holds bytes.size) : s.put bytes = (none, s.take bytes) := by
  have hshare : s.share bytes.size = bytes.size := by
    cases hroom : s.room with
    | none => rw [share, hroom, Option.elim_none]
    | some room => rw [share, hroom, Option.elim_some, Nat.min_eq_right (h room hroom)]
  rw [put, if_pos h, hshare, ByteArray.extract_zero_size]

/-- A sink without room for everything takes its room. -/
theorem put_of_not_holds (h : ¬ s.Holds bytes.size) :
    ∃ room, s.room = some room ∧ room < bytes.size ∧
      s.put bytes = (some .full, s.take (bytes.extract 0 room)) := by
  cases hroom : s.room with
  | none => exact absurd (fun room hmem ↦ nomatch hroom.symm.trans hmem) h
  | some room =>
    have hlt : room < bytes.size := by
      refine Nat.lt_of_not_le fun hle ↦ h fun r hr ↦ ?_
      exact Option.some.inj (hroom.symm.trans hr) ▸ hle
    refine ⟨room, rfl, hlt, ?_⟩
    rw [put, if_neg h, share, hroom, Option.elim_some, Nat.min_eq_left (Nat.le_of_lt hlt)]

theorem write_eq_put (s : Sink) (text : String) : s.write text = s.put text.toUTF8 := by
  rcases s with ⟨taken, _ | room, flushFails⟩
  · exact (put_of_holds (s := ⟨taken, none, flushFails⟩) nofun).symm
  · unfold write
    dsimp only
    by_cases hfits : text.toUTF8.size ≤ room
    · rw [if_pos hfits, put_of_holds fun r hr ↦ Option.some.inj hr ▸ hfits]
      rfl
    · rcases put_of_not_holds (s := ⟨taken, some room, flushFails⟩) (fun h ↦ hfits (h room rfl))
        with ⟨r, hr, hlt, hput⟩
      obtain rfl : room = r := Option.some.inj hr
      have hsize : (text.toUTF8.extract 0 room).size = room := by
        rw [ByteArray.size_extract]
        omega
      rw [if_neg hfits, hput, take, Option.map_some, hsize, Nat.sub_self]

theorem put_append_of_holds (h : s.Holds a.size) (b : ByteArray) :
    s.put (a ++ b) = (s.take a).put b := by
  have hholds : s.Holds (a ++ b).size ↔ (s.take a).Holds b.size :=
    holds_append.trans (and_iff_right h)
  have hextract : (a ++ b).extract 0 (a.size + (s.take a).share b.size) =
      a ++ b.extract 0 ((s.take a).share b.size) := by
    rw [ByteArray.extract_append, Nat.zero_sub, Nat.add_sub_cancel_left,
      ← Nat.max_eq_left (Nat.le_add_right a.size _), ByteArray.extract_zero_max_size]
  simp only [put, hholds, share_append h, hextract, take_append]

theorem put_append_of_not_holds (h : ¬ s.Holds a.size) (b : ByteArray) :
    s.put (a ++ b) = s.put a := by
  rcases put_of_not_holds h with ⟨room, hroom, hlt, hput⟩
  rcases put_of_not_holds (fun hab : s.Holds (a ++ b).size ↦ h (holds_append.mp hab).1)
    with ⟨r, hr, -, hputs⟩
  obtain rfl : r = room := Option.some.inj (hr.symm.trans hroom)
  rw [hputs, hput, extract_append_of_le (Nat.le_of_lt hlt)]

theorem flush_write (s : Sink) (text : String) : (s.write text).2.flush = s.flush := by
  rw [write_eq_put]
  rfl

/-! ## Portions -/

/-- The ways in which bytes come to a sink.  Any first part that there is room for is taken, then
any first part of what is left, and so on, until nothing is left or there is no room. -/
inductive Delivers : Sink → ByteArray → Option WriteError → Sink → Prop
  | done (s : Sink) : Delivers s .empty none s
  | portion {s s' : Sink} {first rest : ByteArray} {failure : Option WriteError}
    (holds : s.Holds first.size) (next : Delivers (s.take first) rest failure s') :
    Delivers s (first ++ rest) failure s'
  | full {s : Sink} {rest : ByteArray} (full : s.room = some 0) (left : 0 < rest.size) :
    Delivers s rest (some .full) s

theorem Delivers.put_eq (h : s.Delivers bytes failure s') : s.put bytes = (failure, s') := by
  induction h with
  | done s =>
    have hholds : s.Holds ByteArray.empty.size := fun room _ ↦ Nat.zero_le room
    rw [put_of_holds hholds, take_empty]
  | portion holds next ih => rw [put_append_of_holds holds, ih]
  | @full s rest full left =>
    have hnot : ¬ s.Holds rest.size := fun h ↦ Nat.not_le_of_lt left (h 0 full)
    rcases put_of_not_holds hnot with ⟨room, hroom, -, hput⟩
    obtain rfl : 0 = room := Option.some.inj (full.symm.trans hroom)
    rw [hput, ByteArray.extract_same, take_empty]

theorem delivers_put (s : Sink) (bytes : ByteArray) :
    s.Delivers bytes (s.put bytes).1 (s.put bytes).2 := by
  by_cases h : s.Holds bytes.size
  · rw [put_of_holds h]
    have hwhole : s.Delivers (bytes ++ .empty) none (s.take bytes) := .portion h (.done _)
    rwa [ByteArray.append_empty] at hwhole
  · rcases put_of_not_holds h with ⟨room, hroom, hlt, hput⟩
    rw [hput]
    have hsplit : bytes.extract 0 room ++ bytes.extract room bytes.size = bytes := by
      rw [ByteArray.extract_append_extract]
      simp [Nat.le_of_lt hlt]
    have hsize : (bytes.extract 0 room).size = room := by
      rw [ByteArray.size_extract]
      omega
    have hparts : s.Delivers (bytes.extract 0 room ++ bytes.extract room bytes.size) (some .full)
        (s.take (bytes.extract 0 room)) := by
      refine .portion ?_ (.full ?_ ?_)
      · intro r hr
        rw [hsize]
        exact Nat.le_of_eq (Option.some.inj (hroom.symm.trans hr))
      · rw [take, hroom, Option.map_some, hsize, Nat.sub_self]
      · rw [ByteArray.size_extract]
        omega
    rwa [hsplit] at hparts

/-- However bytes come to a sink, it ends as if they had been put there at once. -/
theorem delivers_iff : s.Delivers bytes failure s' ↔ s.put bytes = (failure, s') := by
  constructor
  · exact Delivers.put_eq
  · intro h
    have hput := s.delivers_put bytes
    rwa [h] at hput

end Sink

/-! ## Texts one after another -/

theorem writeNext_empty (state : Option WriteError × Sink) : writeNext state "" = state := by
  rcases state with ⟨_ | error, s⟩
  · have hput : s.put .empty = (none, s) := (Sink.Delivers.done s).put_eq
    rw [writeNext, Sink.write_eq_put]
    exact hput
  · rfl

theorem writeNext_append (state : Option WriteError × Sink) (a b : String) :
    writeNext state (a ++ b) = writeNext (writeNext state a) b := by
  rcases state with ⟨_ | error, s⟩
  · have hbytes : (a ++ b).toUTF8 = a.toUTF8 ++ b.toUTF8 := String.toByteArray_append
    simp only [writeNext, Sink.write_eq_put, hbytes]
    by_cases ha : s.Holds a.toUTF8.size
    · rw [Sink.put_append_of_holds ha, Sink.put_of_holds ha]
    · rw [Sink.put_append_of_not_holds ha]
      rcases Sink.put_of_not_holds ha with ⟨room, -, -, hput⟩
      rw [hput]
  · rfl

-- Passing on what was taken does not fail any more than before.
theorem orElse_flush {state : Option WriteError × Sink} (h : state.2.flush = none) :
    (state.1 <|> state.2.flush, state.2) = state := by
  rcases state with ⟨_ | error, s⟩
  · exact congrArg (·, s) h
  · rfl

end LSystem
