import LSystem.Grammar.Alphabet
import Mathlib.Data.List.Nodup
import Mathlib.Data.Finset.Card

/-!
# The tables of an alphabet

The list of symbols and the two tables that find them are kept apart, so that they fit is an
invariant: every symbol stands at its id, and a character is found exactly if its symbol is in the
list (`Consistent`).  An alphabet starts consistent and stays so, and only ever grows at its end.
-/

namespace LSystem

/-! ## Lists without repetition -/

theorem eraseDups_of_nodup {β : Type} [BEq β] [LawfulBEq β] {l : List β} (h : l.Nodup) :
    l.eraseDups = l := by
  induction l with
  | nil => rfl
  | cons c l ih =>
    rcases List.nodup_cons.mp h with ⟨hc, hl⟩
    have hfilter : l.filter (fun b => !b == c) = l := by
      rw [List.filter_eq_self]
      intro b hb
      have hne : b ≠ c := fun hbc => hc (hbc ▸ hb)
      simp [hne]
    rw [List.eraseDups_cons, hfilter, ih hl]

-- The code points of characters end below the seventeenth multiple of 2 ^ 16.
theorem toNat_char_lt (c : Char) : c.toNat < 1114112 := by
  have hvalid := c.valid
  simp only [UInt32.isValidChar, Nat.isValidChar] at hvalid
  change c.val.toNat < 1114112
  omega

theorem length_lt_of_nodup_chars {l : List Char} (h : l.Nodup) : l.length < Number.twoTo 32 := by
  have hmap : (l.map Char.toNat).Nodup := h.map fun _ _ => Char.toNat_inj.mp
  have hrange : l.map Char.toNat ⊆ List.range 1114112 := by
    intro n hn
    obtain ⟨c, -, rfl⟩ := List.mem_map.mp hn
    exact List.mem_range.mpr (toNat_char_lt c)
  have hlength := (hmap.subperm hrange).length_le
  rw [List.length_map, List.length_range] at hlength
  have htwo : 1114112 < Number.twoTo 32 := by decide
  omega

namespace Alphabet

/-- The characters of an alphabet, in the order they were first seen. -/
def chars (a : Alphabet) : List Char := a.symbols.map Symbol.char

/-- No character comes twice, every symbol stands at its id, and exactly the symbols in the list are
found by their characters. -/
structure Consistent (a : Alphabet) : Prop where
  nodup : a.chars.Nodup
  id_eq : ∀ {i : Nat} {s : Symbol}, a.symbols[i]? = some s → s.id = i
  symbol?_eq_some : ∀ {c : Char} {s : Symbol}, a.symbol? c = some s ↔ s ∈ a.symbols ∧ s.char = c

theorem consistent_empty : ({} : Alphabet).Consistent where
  nodup := List.nodup_nil
  id_eq h := by simp at h
  symbol?_eq_some := by simp

namespace Consistent

variable {a : Alphabet}

theorem mem_chars (h : a.Consistent) {c : Char} : c ∈ a.chars ↔ ∃ s, a.symbol? c = some s := by
  simp only [chars, List.mem_map, h.symbol?_eq_some]

theorem symbol?_eq_none (h : a.Consistent) {c : Char} : a.symbol? c = none ↔ c ∉ a.chars := by
  rw [h.mem_chars, Option.eq_none_iff_forall_ne_some, not_exists]

theorem size_lt (h : a.Consistent) : a.size < Number.twoTo 32 := by
  have hlength := length_lt_of_nodup_chars h.nodup
  rwa [chars, List.length_map, length_symbols] at hlength

/-- A symbol stands at its id. -/
theorem getElem?_id (h : a.Consistent) {s : Symbol} (hs : s ∈ a.symbols) :
    a.symbols[s.id]? = some s := by
  obtain ⟨i, hi⟩ := List.mem_iff_getElem?.mp hs
  rwa [h.id_eq hi]

theorem id_lt (h : a.Consistent) {s : Symbol} (hs : s ∈ a.symbols) : s.id < a.size := by
  obtain ⟨hid, -⟩ := List.getElem?_eq_some_iff.mp (h.getElem?_id hs)
  rwa [length_symbols] at hid

-- There are too few characters for the id of a new one not to fit.
theorem fresh_eq (h : a.Consistent) (c : Char) : a.fresh c = ⟨a.size, c⟩ := by
  rw [fresh, Nat.mod_eq_of_lt h.size_lt]

theorem push (h : a.Consistent) {c : Char} (hc : c ∉ a.chars) : (a.push (a.fresh c)).Consistent := by
  have hfresh := h.fresh_eq c
  refine ⟨?_, ?_, ?_⟩
  · rw [chars, symbols_push, hfresh, List.map_append, List.map_singleton]
    exact h.nodup.append (List.nodup_singleton c) (by simpa using hc)
  · intro i s hs
    rw [symbols_push] at hs
    rcases Nat.lt_or_ge i a.symbols.length with hi | hi
    · rw [List.getElem?_append_left hi] at hs
      exact h.id_eq hs
    · rw [List.getElem?_append_right hi, List.getElem?_singleton] at hs
      split at hs
      · obtain rfl := Option.some.inj hs
        rw [length_symbols] at *
        rw [hfresh]
        show a.size = i
        omega
      · nomatch hs
  · intro d s
    rw [symbol?_push, symbols_push, List.mem_append, List.mem_singleton]
    by_cases hd : (a.fresh c).char = d
    · -- No other symbol in the list has the new character.
      have hother : ∀ t ∈ a.symbols, t.char ≠ d := by
        intro t ht htd
        have hdc : d = c := hd.symm
        exact hc (List.mem_map.mpr ⟨t, ht, htd.trans hdc⟩)
      rw [if_pos hd]
      constructor
      · intro hs
        obtain rfl := Option.some.inj hs
        exact ⟨Or.inr rfl, hd⟩
      · rintro ⟨hs | rfl, hchar⟩
        · exact absurd hchar (hother s hs)
        · rfl
    · rw [if_neg hd, h.symbol?_eq_some]
      constructor
      · rintro ⟨hs, hchar⟩
        exact ⟨Or.inl hs, hchar⟩
      · rintro ⟨hs | rfl, hchar⟩
        · exact ⟨hs, hchar⟩
        · exact absurd hchar hd

theorem insert (h : a.Consistent) (c : Char) : (a.insert c).Consistent := by
  cases hc : a.symbol? c with
  | some s => rwa [insert_of_seen hc]
  | none =>
    rw [insert_of_new hc]
    exact h.push (h.symbol?_eq_none.mp hc)

theorem chars_insert (h : a.Consistent) (c : Char) :
    (a.insert c).chars = if c ∈ a.chars then a.chars else a.chars ++ [c] := by
  cases hc : a.symbol? c with
  | some s => rw [insert_of_seen hc, if_pos (h.mem_chars.mpr ⟨s, hc⟩)]
  | none =>
    rw [insert_of_new hc, if_neg (h.symbol?_eq_none.mp hc), chars, symbols_push, List.map_append]
    rfl

theorem extend (h : a.Consistent) (cs : List Char) : (a.extend cs).Consistent := by
  induction cs generalizing a with
  | nil => exact h
  | cons c cs ih => exact ih (h.insert c)

/-- Characters join in the order they come in, each where it comes first. -/
theorem chars_extend (h : a.Consistent) (cs : List Char) :
    (a.extend cs).chars = (a.chars ++ cs).eraseDups := by
  induction cs generalizing a with
  | nil =>
    rw [List.append_nil]
    exact (eraseDups_of_nodup h.nodup).symm
  | cons c cs ih =>
    have hcons : (a.extend (c :: cs)).chars = ((a.insert c).extend cs).chars := rfl
    rw [hcons, ih (h.insert c), h.chars_insert]
    -- A character that has been seen is a repetition in the longer list.
    by_cases hc : c ∈ a.chars
    · rw [if_pos hc, List.eraseDups_append, List.eraseDups_append]
      simp [List.removeAll, hc]
    · rw [if_neg hc, List.append_assoc, List.singleton_append]

theorem extend_of_seen (h : a.Consistent) {cs : List Char} (hcs : cs ⊆ a.chars) :
    a.extend cs = a := by
  induction cs with
  | nil => rfl
  | cons c cs ih =>
    obtain ⟨s, hs⟩ := h.mem_chars.mp (hcs List.mem_cons_self)
    have hcons : a.extend (c :: cs) = (a.insert c).extend cs := rfl
    rw [hcons, insert_of_seen hs, ih fun d hd => hcs (List.mem_cons_of_mem c hd)]

theorem symbol_mem (h : a.Consistent) {c : Char} (hc : c ∈ a.chars) : a.symbol c ∈ a.symbols := by
  obtain ⟨s, hs⟩ := h.mem_chars.mp hc
  rw [symbol, hs]
  exact (h.symbol?_eq_some.mp hs).1

theorem symbol?_char (h : a.Consistent) {s : Symbol} (hs : s ∈ a.symbols) :
    a.symbol? s.char = some s :=
  h.symbol?_eq_some.mpr ⟨hs, rfl⟩

theorem symbol_char (h : a.Consistent) {s : Symbol} (hs : s ∈ a.symbols) : a.symbol s.char = s := by
  rw [symbol, h.symbol?_char hs, Option.getD_some]

theorem char_symbol (h : a.Consistent) (c : Char) : (a.symbol c).char = c := by
  unfold symbol
  cases hc : a.symbol? c with
  | some s => exact (h.symbol?_eq_some.mp hc).2
  | none => rfl

/-- Symbols with one id are one symbol. -/
theorem eq_of_id_eq (h : a.Consistent) {s t : Symbol} (hs : s ∈ a.symbols) (ht : t ∈ a.symbols)
    (hid : s.id = t.id) : s = t := by
  have hsome := h.getElem?_id hs
  rw [hid, h.getElem?_id ht] at hsome
  exact (Option.some.inj hsome).symm

end Consistent

/-! ## Growing at the end -/

theorem symbols_prefix_insert (a : Alphabet) (c : Char) : a.symbols <+: (a.insert c).symbols := by
  cases hc : a.symbol? c with
  | some s => rw [insert_of_seen hc]
  | none =>
    rw [insert_of_new hc, symbols_push]
    exact List.prefix_append _ _

theorem symbols_prefix_extend (a : Alphabet) (cs : List Char) :
    a.symbols <+: (a.extend cs).symbols := by
  induction cs generalizing a with
  | nil => exact List.prefix_rfl
  | cons c cs ih => exact (a.symbols_prefix_insert c).trans (ih (a.insert c))

theorem extend_append (a : Alphabet) (cs ds : List Char) :
    a.extend (cs ++ ds) = (a.extend cs).extend ds := List.foldl_append

namespace Consistent

variable {a : Alphabet}

theorem symbol?_extend_of_seen (h : a.Consistent) (cs : List Char) {c : Char} {s : Symbol}
    (hs : a.symbol? c = some s) : (a.extend cs).symbol? c = some s := by
  obtain ⟨hmem, hchar⟩ := h.symbol?_eq_some.mp hs
  have hsub := (a.symbols_prefix_extend cs).subset hmem
  exact (h.extend cs).symbol?_eq_some.mpr ⟨hsub, hchar⟩

/-- A symbol that joins stands behind all that have been there. -/
theorem size_le_id (h : a.Consistent) (cs : List Char) {c : Char} {s : Symbol}
    (hc : a.symbol? c = none) (hs : (a.extend cs).symbol? c = some s) : a.size ≤ s.id := by
  by_contra hlt
  obtain ⟨hmem, rfl⟩ := (h.extend cs).symbol?_eq_some.mp hs
  have hid : s.id < a.symbols.length := by
    rw [length_symbols]
    omega
  have hold := (a.symbols_prefix_extend cs).getElem hid
  have hnew := (List.getElem?_eq_some_iff.mp ((h.extend cs).getElem?_id hmem)).2
  have hseen : s ∈ a.symbols := List.mem_of_getElem (hold.trans hnew)
  rw [h.symbol?_char hseen] at hc
  nomatch hc

/-- Letters that join bring nothing with them, if there is nothing behind the last symbol. -/
theorem elim_symbol?_extend {β : Type} (h : a.Consistent) (cs : List Char) {v : β} {f : Symbol → β}
    (hf : ∀ s : Symbol, a.size ≤ s.id → f s = v) (c : Char) :
    ((a.extend cs).symbol? c).elim v f = (a.symbol? c).elim v f := by
  cases hc : a.symbol? c with
  | some s => rw [h.symbol?_extend_of_seen cs hc]
  | none =>
    cases hs : (a.extend cs).symbol? c with
    | some s => exact hf s (h.size_le_id cs hc hs)
    | none => rfl

end Consistent

end Alphabet

end LSystem
