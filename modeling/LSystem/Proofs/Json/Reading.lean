import LSystem.Json.Typed
import LSystem.Json.Value
import Mathlib.Tactic.Common

/-!
# Reading what has been written

A reader of a type reads back a text if it takes the glyphs of the text from whatever they are in
front of and gives a certain value.  A value of a compact document has only a comma or a closing
bracket after it, so nothing that follows can be taken for a part of it (`Closes`); and it starts
with a character that tells it from the end of a sequence and from null (`Starts`).
-/

namespace LSystem

open Text (Glyph)

namespace Text.Glyph

@[simp] theorem ofString_append (s t : String) :
    ofString (s ++ t) = ofString s ++ ofString t := by
  simp [ofString]

end Text.Glyph

namespace Json

/-- What can come after a value of a compact document: nothing, a comma or a closing bracket. -/
def Closes (rest : List Glyph) : Prop :=
  ∀ g ∈ rest.head?, g = .char ',' ∨ g = .char ']' ∨ g = .char '\x7d'

/-- The text starts with a character that is not blank, closes nothing and is not that of null. -/
def Starts (t : String) : Prop :=
  ∃ c cs, t.toList = c :: cs ∧ isBlank (.char c) = false ∧ c ≠ ']' ∧ c ≠ '\x7d' ∧ c ≠ 'n'

/-- The reader takes the text, in front of whatever may follow a value, and gives the value. -/
def Reads {β : Type} (r : Reader β) (t : String) (value : β) : Prop :=
  ∀ rest, Closes rest → r.run (Glyph.ofString t ++ rest) = .ok (value, rest)

theorem closes_nil : Closes [] := by
  intro g hg
  nomatch hg

theorem closes_comma (rest : List Glyph) : Closes (.char ',' :: rest) := by
  simp [Closes]

/-- The brackets that close a sequence. -/
def IsBracket (close : Char) : Prop := close = ']' ∨ close = '\x7d'

theorem IsBracket.closes {close : Char} (h : IsBracket close) (rest : List Glyph) :
    Closes (.char close :: rest) := by
  rcases h with rfl | rfl <;> simp [Closes]

theorem IsBracket.isBlank {close : Char} (h : IsBracket close) :
    isBlank (.char close) = false := by
  rcases h with rfl | rfl <;> rfl

theorem Starts.append {t : String} (h : Starts t) (u : String) : Starts (t ++ u) := by
  obtain ⟨c, cs, ht, hc⟩ := h
  exact ⟨c, cs ++ u.toList, by rw [String.toList_append, ht, List.cons_append], hc⟩

theorem Starts.ofString_eq {t : String} (h : Starts t) :
    ∃ c gs, Glyph.ofString t = .char c :: gs ∧ isBlank (.char c) = false ∧
      c ≠ ']' ∧ c ≠ '\x7d' ∧ c ≠ 'n' := by
  obtain ⟨c, cs, ht, hc⟩ := h
  exact ⟨c, cs.map .char, by rw [Glyph.ofString, ht, List.map_cons], hc⟩

namespace Reader

variable {β γ : Type} {r : Reader β} {value : β} {glyphs rest : List Glyph}

/-! ## Step by step -/

theorem run_bind_of_ok {f : β → Reader γ} (h : r.run glyphs = .ok (value, rest)) :
    (r >>= f).run glyphs = (f value).run rest := by
  rw [StateT.run_bind, h]
  rfl

theorem run_map_of_ok {f : β → γ} (h : r.run glyphs = .ok (value, rest)) :
    (f <$> r).run glyphs = .ok (f value, rest) := by
  rw [StateT.run_map, h]
  rfl

theorem run_peek_eq (glyphs : List Glyph) :
    peek.run glyphs =
      match glyphs.dropWhile isBlank with
      | [] => .error .ended
      | g :: gs => .ok (g, g :: gs) := by
  have hskip : skipBlanks.run glyphs = .ok ((), glyphs.dropWhile isBlank) := rfl
  rw [peek, run_bind_of_ok hskip]
  cases glyphs.dropWhile isBlank <;> rfl

theorem run_peek {g : Glyph} (h : isBlank g = false) (rest : List Glyph) :
    peek.run (g :: rest) = .ok (g, g :: rest) := by
  rw [run_peek_eq, List.dropWhile_cons_of_neg (by simp [h])]

theorem run_delimiter {c : Char} (h : isBlank (.char c) = false) (rest : List Glyph) :
    (delimiter c).run (.char c :: rest) = .ok ((), rest) := by
  rw [delimiter, run_bind_of_ok (run_peek h rest), if_pos rfl]
  rfl

theorem run_opening {c : Char} (h : isBlank (.char c) = false) (rest : List Glyph) :
    (opening c).run (.char c :: rest) = .ok ((), rest) := by
  rw [opening, run_bind_of_ok (run_peek h rest), if_pos rfl]
  rfl

/-! ## Sequences -/

section More

variable {close : Char}

theorem run_more_close (h : IsBracket close) (first : Bool) (rest : List Glyph) :
    (more close first).run (.char close :: rest) = .ok (false, .char close :: rest) := by
  rw [more, run_bind_of_ok (run_peek h.isBlank rest), if_pos rfl]
  rfl

theorem run_more_first {g : Glyph} (hg : isBlank g = false) (hne : g ≠ .char close)
    (rest : List Glyph) : (more close true).run (g :: rest) = .ok (true, g :: rest) := by
  rw [more, run_bind_of_ok (run_peek hg rest), if_neg hne, if_pos rfl]
  rfl

theorem run_more_comma {g : Glyph} (h : IsBracket close) (hg : isBlank g = false)
    (hne : g ≠ .char close) (rest : List Glyph) :
    (more close false).run (.char ',' :: g :: rest) = .ok (true, g :: rest) := by
  have hcomma : Glyph.char ',' ≠ .char close := by
    rcases h with rfl | rfl <;> decide
  have hskip : skip.run (.char ',' :: g :: rest) = .ok ((), g :: rest) := rfl
  rw [more, run_bind_of_ok (run_peek rfl _), if_neg hcomma, if_neg Bool.false_ne_true, if_pos rfl,
    run_bind_of_ok hskip, run_bind_of_ok (run_peek hg rest), if_neg hne]
  rfl

end More

/-- Reading one text after another, each from the value that the one before it has led to. -/
inductive Chain {σ : Type} (item : σ → Reader σ) : σ → List String → σ → Prop where
  | nil (s : σ) : Chain item s [] s
  | cons {s s' s'' : σ} {t : String} {ts : List String} (starts : Starts t)
      (reads : Reads (item s) t s') (rest : Chain item s' ts s'') : Chain item s (t :: ts) s''

section Chains

variable {σ : Type} {item : σ → Reader σ} {s s' : σ} {ts : List String} {close : Char}

/-- The texts as they stand in a sequence, where all but the first have a comma before them. -/
def listed : (first : Bool) → List String → List Glyph
  | _, [] => []
  | first, t :: ts => (if first then [] else [.char ',']) ++ Glyph.ofString t ++ listed false ts

theorem ofString_intercalate (ts : List String) :
    Glyph.ofString (",".intercalate ts) = listed true ts := by
  have hcomma (t : String) (ts : List String) :
      Glyph.ofString (",".intercalate (t :: ts)) = Glyph.ofString t ++ listed false ts := by
    induction ts generalizing t with
    | nil => simp [listed]
    | cons u ts ih =>
      rw [String.intercalate_cons_cons, Glyph.ofString_append, Glyph.ofString_append, ih]
      simp [listed, Glyph.ofString]
  cases ts with
  | nil => rfl
  | cons t ts => exact hcomma t ts

-- What follows an item is the comma before the next one, or the bracket.
theorem closes_listed (hclose : IsBracket close) (ts : List String) (rest : List Glyph) :
    Closes (listed false ts ++ .char close :: rest) := by
  cases ts with
  | nil => exact hclose.closes rest
  | cons t ts => exact closes_comma _

theorem run_more_listed (hclose : IsBracket close) {t : String} (ht : Starts t) (first : Bool)
    (ts : List String) (rest : List Glyph) :
    (more close first).run (listed first (t :: ts) ++ rest) =
      .ok (true, Glyph.ofString t ++ (listed false ts ++ rest)) := by
  obtain ⟨c, gs, htext, hblank, hne, hne', -⟩ := ht.ofString_eq
  have hc : Glyph.char c ≠ .char close := by
    rcases hclose with rfl | rfl
    · simpa using hne
    · simpa using hne'
  cases first with
  | true =>
    simp only [listed, if_true, List.nil_append, List.append_assoc, htext, List.cons_append]
    exact run_more_first hblank hc _
  | false =>
    simp only [listed, Bool.false_eq_true, if_false, List.append_assoc, htext, List.cons_append,
      List.nil_append]
    exact run_more_comma hclose hblank hc _

theorem run_manyWith (hclose : IsBracket close) (h : Chain item s ts s') (first : Bool)
    {fuel : Nat} (hfuel : ts.length < fuel) (rest : List Glyph) :
    (manyWith close item fuel first s).run (listed first ts ++ .char close :: rest) =
      .ok (s', .char close :: rest) := by
  induction h generalizing first fuel with
  | nil s =>
    obtain ⟨fuel, rfl⟩ : ∃ n, fuel = n + 1 := Nat.exists_eq_succ_of_ne_zero (by omega)
    rw [manyWith, listed, List.nil_append, run_bind_of_ok (run_more_close hclose first rest)]
    rfl
  | @cons s s' s'' t ts starts reads _ ih =>
    obtain ⟨fuel, rfl⟩ : ∃ n, fuel = n + 1 := Nat.exists_eq_succ_of_ne_zero (by omega)
    rw [List.length_cons] at hfuel
    rw [manyWith, run_bind_of_ok (run_more_listed hclose starts first ts _), if_pos rfl,
      run_bind_of_ok (reads _ (closes_listed hclose ts rest))]
    exact ih false (by omega)

theorem length_le_length_listed (h : Chain item s ts s') (first : Bool) :
    ts.length ≤ (listed first ts).length := by
  induction h generalizing first with
  | nil s => exact Nat.le_refl 0
  | cons starts reads _ ih =>
    obtain ⟨c, gs, ht, -⟩ := starts.ofString_eq
    have htail := ih false
    simp only [listed, ht, List.length_cons, List.length_append]
    omega

theorem run_many (hclose : IsBracket close) (h : Chain item s ts s') (rest : List Glyph) :
    (many close item s).run (listed true ts ++ .char close :: rest) = .ok (s', rest) := by
  have hget : (get : Reader (List Glyph)).run (listed true ts ++ .char close :: rest) =
      .ok (_, listed true ts ++ .char close :: rest) := rfl
  have hfuel : ts.length < (listed true ts ++ Glyph.char close :: rest).length + 1 := by
    have hlength := length_le_length_listed h true
    rw [List.length_append]
    omega
  rw [many, run_bind_of_ok hget, run_bind_of_ok (run_manyWith hclose h true hfuel rest),
    run_bind_of_ok (run_delimiter hclose.isBlank rest)]
  rfl

end Chains

end Reader

end Json

end LSystem
