import LSystem.Proofs.Json.Reading
import LSystem.Proofs.Json.Yields
import LSystem.Proofs.Number.Fixed
import Mathlib.Data.List.Basic
import Mathlib.Data.List.TakeWhile

/-!
# Numbers read back

What a number reader takes does not depend on the comma or bracket that comes after it (`Framed`),
so a number that is read from its own text is read in a document too (`ReadsBack.reads`).  An integer
whose text is read comes out as it went in, as long as 64 bits hold it (`reads_integer`).
-/

namespace LSystem.Json

open LSystem.Number (twoTo)
open Text (Glyph)

/-- A double is what is read from its own text. -/
def ReadsBack (x : Float) : Prop :=
  Reader.float.run (Glyph.ofString (Value.numberText x)) = .ok (x, [])

instance (x : Float) : Decidable (ReadsBack x) :=
  inferInstanceAs (Decidable (Reader.float.run _ = _))

-- Seventeen digits are put together in two steps, each of which may round.
example : ¬ ReadsBack 3.7416573867739413 := by
  decide +kernel

/-- What follows a value that the reader takes neither changes the value nor is taken. -/
def Framed {β : Type} (r : Reader β) : Prop :=
  ∀ glyphs value left, r.run glyphs = .ok (value, left) →
    ∀ rest, Closes rest → r.run (glyphs ++ rest) = .ok (value, left ++ rest)

section Frames

variable {β γ : Type} {r r' : Reader β}

theorem framed_of_yields_false (h : Yields r fun _ => False) : Framed r :=
  fun glyphs value left hrun => (h glyphs value left hrun).elim

theorem framed_throw (fault : Fault) : Framed (throw fault : Reader β) :=
  framed_of_yields_false (yields_throw fault)

theorem framed_pure (value : β) : Framed (pure value : Reader β) := by
  rintro glyphs _ _ ⟨⟩ rest _
  rfl

theorem Framed.bind {f : β → Reader γ} (h : Framed r) (hf : ∀ value, Framed (f value)) :
    Framed (r >>= f) := by
  intro glyphs value left hrun rest hrest
  rw [StateT.run_bind] at hrun
  cases hr : r.run glyphs with
  | error fault =>
    rw [hr] at hrun
    nomatch hrun
  | ok first =>
    rw [hr] at hrun
    have hfirst := h glyphs first.1 first.2 hr rest hrest
    rw [Reader.run_bind_of_ok hfirst]
    exact hf first.1 first.2 value left hrun rest hrest

theorem Framed.map {f : β → γ} (h : Framed r) : Framed (f <$> r) := by
  rw [map_eq_pure_bind]
  exact h.bind fun value => framed_pure (f value)

theorem framed_ite {p : Prop} [Decidable p] (h : Framed r) (h' : Framed r') :
    Framed (if p then r else r') := by
  split
  · exact h
  · exact h'

/-- A text that is read to its end is read in front of anything that may follow a value. -/
theorem Framed.reads (h : Framed r) {t : String} {value : β}
    (hrun : r.run (Glyph.ofString t) = .ok (value, [])) : Reads r t value :=
  fun rest hrest => h _ value [] hrun rest hrest

end Frames

theorem Closes.head?_ne {rest : List Glyph} (h : Closes rest) {c : Char}
    (hc : c ≠ ',' ∧ c ≠ ']' ∧ c ≠ '\x7d') : rest.head? ≠ some (.char c) := by
  intro hhead
  have hg := h (.char c) hhead
  simp only [Glyph.char.injEq] at hg
  tauto

theorem Closes.not_isDigit {rest : List Glyph} (h : Closes rest) {g : Glyph}
    (hg : g ∈ rest.head?) : isDigit g = false := by
  rcases h g hg with rfl | rfl | rfl <;> rfl

namespace Reader

/-! ## What follows a numeral -/

theorem run_accept (c : Char) (glyphs : List Glyph) :
    (accept c).run glyphs =
      .ok (if glyphs.head? = some (.char c) then (true, glyphs.tail) else (false, glyphs)) := by
  have hpeek : peek?.run glyphs = .ok (glyphs.head?, glyphs) := rfl
  rw [accept, run_bind_of_ok hpeek]
  split <;> rfl

theorem framed_accept {c : Char} (hc : c ≠ ',' ∧ c ≠ ']' ∧ c ≠ '\x7d') : Framed (accept c) := by
  intro glyphs value left hrun rest hrest
  rw [run_accept] at hrun ⊢
  cases glyphs with
  | nil =>
    obtain ⟨rfl, rfl⟩ := Prod.mk.inj (Except.ok.inj hrun)
    rw [List.nil_append, if_neg (hrest.head?_ne hc)]
  | cons g gs =>
    rw [List.cons_append, List.head?_cons] at *
    split at hrun
    · obtain ⟨rfl, rfl⟩ := Prod.mk.inj (Except.ok.inj hrun)
      rw [if_pos ‹_›]
      rfl
    · obtain ⟨rfl, rfl⟩ := Prod.mk.inj (Except.ok.inj hrun)
      rw [if_neg ‹_›]
      rfl

theorem run_digits (glyphs : List Glyph) :
    digits.run glyphs =
      .ok ((glyphs.takeWhile isDigit).filterMap digit?, glyphs.dropWhile isDigit) := rfl

theorem framed_digits : Framed digits := by
  intro glyphs value left hrun rest hrest
  -- The digits end within the glyphs or with them, and no digit follows.
  have hend : rest.takeWhile isDigit = [] ∧ rest.dropWhile isDigit = rest := by
    cases rest with
    | nil => exact ⟨rfl, rfl⟩
    | cons g gs => simp [hrest.not_isDigit rfl]
  have hsplit : (glyphs ++ rest).takeWhile isDigit = glyphs.takeWhile isDigit ∧
      (glyphs ++ rest).dropWhile isDigit = glyphs.dropWhile isDigit ++ rest := by
    clear hrun
    induction glyphs with
    | nil => exact hend
    | cons g gs ih => cases hg : isDigit g <;> simp [hg, ih]
  rw [run_digits] at hrun ⊢
  obtain ⟨rfl, rfl⟩ := Prod.mk.inj (Except.ok.inj hrun)
  rw [hsplit.1, hsplit.2]

theorem framed_someDigits : Framed someDigits := by
  intro glyphs value left hrun rest hrest
  have hpeek (gs : List Glyph) : peek?.run gs = .ok (gs.head?, gs) := rfl
  rw [someDigits, run_bind_of_ok (hpeek _)] at hrun ⊢
  cases glyphs with
  | nil => nomatch hrun
  | cons g gs =>
    rw [List.head?_cons] at hrun
    rw [List.cons_append, List.head?_cons]
    exact framed_ite framed_digits (framed_throw _) _ _ _ hrun rest hrest

theorem framed_wholeDigits : Framed wholeDigits :=
  framed_someDigits.bind fun _ => framed_ite (framed_throw _) (framed_pure _)

theorem framed_numeral : Framed numeral := by
  have hdigits : Framed (some <$> someDigits) := framed_someDigits.map
  have hmark : Framed (accept 'e' <||> accept 'E') := by
    refine (framed_accept (by decide)).bind fun b => ?_
    cases b with
    | true => exact framed_pure true
    | false => exact framed_accept (by decide)
  unfold numeral
  refine (framed_accept (by decide)).bind fun negative => ?_
  refine framed_wholeDigits.bind fun whole => ?_
  refine (framed_accept (by decide)).bind fun point => ?_
  have hexponent (fraction : Option (List Nat)) : Framed (do
      let marked ← accept 'e' <||> accept 'E'
      let exponent ←
        if marked then
          let below ← accept '-'
          let _ ← if below then pure true else accept '+'
          some <$> (Prod.mk below <$> someDigits)
        else pure none
      return { negative, whole, fraction, exponent : Numeral }) := by
    refine hmark.bind fun marked => ?_
    refine framed_ite ?_ ?_
    · refine (framed_accept (by decide)).bind fun below => ?_
      have hvalue (_ : Bool) : Framed (do
          let exponent ← some <$> (Prod.mk below <$> someDigits)
          return { negative, whole, fraction, exponent : Numeral }) :=
        framed_someDigits.map.map.bind fun _ => framed_pure _
      exact framed_ite ((framed_pure true).bind hvalue) ((framed_accept (by decide)).bind hvalue)
    · exact (framed_pure none).bind fun _ => framed_pure _
  exact framed_ite (hdigits.bind hexponent) ((framed_pure none).bind hexponent)

theorem framed_number : Framed number := by
  refine framed_numeral.bind fun n => ?_
  cases n.number? with
  | none => exact framed_throw _
  | some _ => exact framed_pure _

theorem framed_peek : Framed peek := by
  intro glyphs value left hrun rest hrest
  rw [run_peek_eq] at hrun ⊢
  rw [List.dropWhile_append]
  cases hdrop : glyphs.dropWhile isBlank with
  | nil =>
    rw [hdrop] at hrun
    nomatch hrun
  | cons g gs =>
    rw [hdrop] at hrun
    obtain ⟨rfl, rfl⟩ := Prod.mk.inj (Except.ok.inj hrun)
    rfl

theorem framed_anyNumber : Framed anyNumber :=
  framed_peek.bind fun _ => framed_ite framed_number (framed_of_yields_false yields_mismatch)

theorem framed_float : Framed float := by
  refine framed_anyNumber.bind fun n => ?_
  cases n <;> exact framed_pure _

end Reader

/-! ## Integers -/

/-- The values of the digits of a number. -/
def digitsOf (n : Nat) : List Nat := (Nat.toDigits 10 n).map fun c => c.toNat - 48

theorem ofDigits_digitsOf (n : Nat) : Numeral.ofDigits (digitsOf n) = n := by
  have hvalue : Nat.ofDigitChars 10 (Nat.toDigits 10 n) 0 = n := Nat.ofDigitChars_ten_toDigits
  rw [Nat.ofDigitChars_eq_foldl] at hvalue
  rw [Numeral.ofDigits, digitsOf, List.foldl_map]
  simp only [Nat.mul_comm 10] at hvalue
  exact hvalue

theorem digitsOf_of_lt {n : Nat} (h : n < 10) : digitsOf n = [n] := by
  rw [digitsOf, Nat.toDigits_of_lt_base h, List.map_singleton,
    Nat.toNat_digitChar_sub_48_of_lt_ten h]

-- A number does not start with a zero, unless it is one.
theorem head?_digitsOf_ne {n : Nat} (h : 0 < n) : (digitsOf n).head? ≠ some 0 := by
  induction n using Nat.strongRecOn with
  | ind n ih =>
    by_cases hn : n < 10
    · rw [digitsOf_of_lt hn, List.head?_cons, ne_eq, Option.some.injEq]
      omega
    · have htail : 0 < n / 10 := by
        omega
      have hhead := ih (n / 10) (by omega) htail
      rw [digitsOf, Nat.toDigits_of_base_le (by decide) (by omega), List.map_append]
      -- The last digit comes after those of the tenth, of which there is one at least.
      change (digitsOf (n / 10) ++ _).head? ≠ _
      cases htens : digitsOf (n / 10) with
      | nil => exact absurd htens (by simp [digitsOf])
      | cons d ds => rwa [htens] at hhead

theorem Numeral.append_of_le {significand : Nat} {ds : List Nat}
    (h : ds.foldl (fun n d => n * 10 + d) significand ≤ maxSignificand) :
    append significand ds = (ds.foldl (fun n d => n * 10 + d) significand, 0) := by
  have hgrows (ds : List Nat) (n : Nat) : n ≤ ds.foldl (fun n d => n * 10 + d) n := by
    induction ds generalizing n with
    | nil => exact Nat.le_refl n
    | cons d ds ih =>
      have htail := ih (n * 10 + d)
      rw [List.foldl_cons]
      omega
  induction ds generalizing significand with
  | nil => rfl
  | cons d ds ih =>
    rw [List.foldl_cons] at h ⊢
    have hfits : significand * 10 + d ≤ maxSignificand := Nat.le_trans (hgrows ds _) h
    rw [append, if_pos hfits, ih h]

theorem append_digitsOf {n : Nat} (h : n ≤ Numeral.maxSignificand) :
    Numeral.append 0 (digitsOf n) = (n, 0) := by
  have hvalue : (digitsOf n).foldl (fun n d => n * 10 + d) 0 = n := ofDigits_digitsOf n
  rw [Numeral.append_of_le (by rwa [hvalue]), hvalue]

theorem startsValue_of_isDigit {c : Char} (hc : c.isDigit = true) :
    isBlank (.char c) = false ∧ c ≠ ']' ∧ c ≠ '\x7d' ∧ c ≠ 'n' := by
  have hne (d : Char) (hd : d.isDigit = false) : c ≠ d := by
    rintro rfl
    exact Bool.false_ne_true (hd.symm.trans hc)
  refine ⟨?_, hne ']' rfl, hne '\x7d' rfl, hne 'n' rfl⟩
  simp [isBlank, hne ' ' rfl, hne '\n' rfl, hne '\t' rfl, hne '\r' rfl]

theorem toList_repr_cons (n : Nat) :
    ∃ c cs, n.repr.toList = c :: cs ∧ c.isDigit = true := by
  rw [Nat.toList_repr]
  cases hdigits : Nat.toDigits 10 n with
  | nil => exact absurd hdigits Nat.toDigits_ne_nil
  | cons c cs =>
    have hc : c ∈ Nat.toDigits 10 n := by
      rw [hdigits]
      exact List.mem_cons_self
    exact ⟨c, cs, rfl, Nat.isDigit_of_mem_toDigits (by decide) (by decide) hc⟩

theorem ofString_repr (n : Nat) :
    ∃ c gs, Glyph.ofString n.repr = .char c :: gs ∧ c.isDigit = true := by
  obtain ⟨c, cs, hdigits, hc⟩ := toList_repr_cons n
  exact ⟨c, cs.map .char, by rw [Glyph.ofString, hdigits, List.map_cons], hc⟩

namespace Reader

theorem run_digits_repr (n : Nat) :
    digits.run (Glyph.ofString n.repr) = .ok (digitsOf n, []) := by
  have hdigit (c : Char) (hc : c ∈ Nat.toDigits 10 n) : digit? (.char c) = some (c.toNat - 48) :=
    if_pos (Nat.isDigit_of_mem_toDigits (by decide) (by decide) hc)
  have hall : ∀ g ∈ (Nat.toDigits 10 n).map Glyph.char, isDigit g = true := by
    intro g hg
    obtain ⟨c, hc, rfl⟩ := List.mem_map.mp hg
    rw [isDigit, hdigit c hc]
    rfl
  have hvalues : ((Nat.toDigits 10 n).map Glyph.char).filterMap digit? = digitsOf n := by
    rw [List.filterMap_map, digitsOf, ← List.filterMap_eq_map]
    exact List.filterMap_congr hdigit
  rw [run_digits, Glyph.ofString, Nat.toList_repr, List.takeWhile_eq_self_iff.mpr hall,
    List.dropWhile_eq_nil_iff.mpr hall, hvalues]

theorem run_wholeDigits_repr (n : Nat) :
    wholeDigits.run (Glyph.ofString n.repr) = .ok (digitsOf n, []) := by
  have hsome : someDigits.run (Glyph.ofString n.repr) = .ok (digitsOf n, []) := by
    obtain ⟨c, gs, htext, hc⟩ := ofString_repr n
    have hpeek : peek?.run (Glyph.ofString n.repr) =
        .ok (some (.char c), Glyph.ofString n.repr) := by
      rw [htext]
      rfl
    rw [someDigits, run_bind_of_ok hpeek]
    simp only [isDigit, digit?, hc, if_true, Option.isSome_some]
    exact run_digits_repr n
  have hzero : ¬ ((digitsOf n).head? = some 0 ∧ 1 < (digitsOf n).length) := by
    intro ⟨hhead, hlength⟩
    have hn : n = 0 := by
      by_contra hne
      exact head?_digitsOf_ne (Nat.pos_of_ne_zero hne) hhead
    rw [hn, digitsOf_of_lt (by decide)] at hlength
    exact absurd hlength (by decide)
  rw [wholeDigits, run_bind_of_ok hsome, if_neg hzero]
  rfl

/-- The sign of an integer, as its text starts. -/
def signGlyphs (negative : Bool) : List Glyph := if negative then [.char '-'] else []

theorem run_numeral_repr (negative : Bool) (n : Nat) :
    numeral.run (signGlyphs negative ++ Glyph.ofString n.repr) =
      .ok ({ negative, whole := digitsOf n, fraction := none, exponent := none }, []) := by
  have hsign : (accept '-').run (signGlyphs negative ++ Glyph.ofString n.repr) =
      .ok (negative, Glyph.ofString n.repr) := by
    rw [run_accept]
    cases negative with
    | true => rfl
    | false =>
      obtain ⟨c, gs, htext, hc⟩ := ofString_repr n
      have hne : c ≠ '-' := by
        rintro rfl
        exact absurd hc (by decide)
      rw [if_neg]
      · rfl
      · simpa [signGlyphs, htext] using hne
  have hnone (c : Char) : (accept c).run [] = .ok (false, []) := rfl
  rw [numeral, run_bind_of_ok hsign, run_bind_of_ok (run_wholeDigits_repr n),
    run_bind_of_ok (hnone '.')]
  rfl

theorem run_number_repr {negative : Bool} {n : Nat}
    (h : if negative then 0 < n ∧ n ≤ twoTo 63 else n ≤ Numeral.maxSignificand) :
    number.run (signGlyphs negative ++ Glyph.ofString n.repr) =
      .ok (.integer (if negative then -n else n), []) := by
  have hmax : n ≤ Numeral.maxSignificand := by
    have hle : twoTo 63 ≤ Numeral.maxSignificand := by
      decide
    cases negative with
    | true => exact Nat.le_trans h.2 hle
    | false => exact h
  have hnumber : Numeral.number?
      { negative, whole := digitsOf n, fraction := none, exponent := none } =
        some (.integer (if negative then -n else n)) := by
    cases negative with
    | true =>
      have hpositive : 0 < n ∧ n ≤ twoTo 63 := h
      simp [Numeral.number?, append_digitsOf hmax, hpositive]
    | false => simp [Numeral.number?, append_digitsOf hmax]
  rw [number, run_bind_of_ok (run_numeral_repr negative n), hnumber]
  rfl

theorem ofString_toString (i : Int) :
    ∃ (negative : Bool) (n : Nat),
      Glyph.ofString (toString i) = signGlyphs negative ++ Glyph.ofString n.repr ∧
        i = (if negative then -(n : Int) else n) ∧ (negative = true → 0 < n) := by
  cases i with
  | ofNat n => exact ⟨false, n, rfl, rfl, nofun⟩
  | negSucc n => exact ⟨true, n + 1, Glyph.ofString_append "-" _, rfl, fun _ => Nat.zero_lt_succ n⟩

/-- An integer that 64 bits hold, with a sign or without one, is read back from its text. -/
theorem reads_integer {low high i : Int} (hi : low ≤ i ∧ i ≤ high)
    (hbits : -(twoTo 63 : Int) ≤ i ∧ i ≤ Numeral.maxSignificand) :
    Reads (integer low high) (toString i) i := by
  obtain ⟨negative, n, htext, hvalue, hpositive⟩ := ofString_toString i
  have hrange : if negative then 0 < n ∧ n ≤ twoTo 63 else n ≤ Numeral.maxSignificand := by
    cases negative with
    | true =>
      have hn : i = -n := hvalue
      have hpos := hpositive rfl
      exact ⟨hpos, by omega⟩
    | false =>
      have hn : i = n := hvalue
      have hmax := hbits.2
      rw [hn] at hmax
      exact Int.ofNat_le.mp hmax
  -- Whether with a sign or without one, the text starts as a number does.
  have hstart : ∃ g gs, Glyph.ofString (toString i) = g :: gs ∧ isBlank g = false ∧
      (g = .char '-' || isDigit g) = true := by
    rw [htext]
    cases negative with
    | true => exact ⟨.char '-', _, rfl, rfl, rfl⟩
    | false =>
      obtain ⟨c, gs, hrepr, hc⟩ := ofString_repr n
      exact ⟨.char c, gs, hrepr, (startsValue_of_isDigit hc).1, by simp [isDigit, digit?, hc]⟩
  apply Framed.reads
  · refine framed_anyNumber.bind fun n => ?_
    cases n with
    | integer i => exact framed_ite (framed_pure i) (framed_throw _)
    | real x => exact framed_throw _
  · obtain ⟨g, gs, hg, hblank, hnumber⟩ := hstart
    have hpeek : peek.run (Glyph.ofString (toString i)) = .ok (g, Glyph.ofString (toString i)) := by
      rw [hg]
      exact run_peek hblank gs
    have hany : anyNumber.run (Glyph.ofString (toString i)) = .ok (.integer i, []) := by
      rw [anyNumber, run_bind_of_ok hpeek, if_pos hnumber, htext, run_number_repr hrange, ← hvalue]
    rw [integer, run_bind_of_ok hany]
    exact congrFun (if_pos hi) []

end Reader

/-! ## How the text of a number starts -/

theorem starts_of_toList {t : String} {c : Char} {cs : List Char} (ht : t.toList = c :: cs)
    (hc : c.isDigit = true) : Starts t :=
  ⟨c, cs, ht, startsValue_of_isDigit hc⟩

theorem starts_signText_append (negative : Bool) {t : String} (h : Starts t) :
    Starts (Number.signText negative ++ t) := by
  cases negative with
  | true => exact ⟨'-', t.toList, String.toList_append, by decide⟩
  | false => exact (String.empty_append (s := t)).symm ▸ h

theorem starts_toString (i : Int) : Starts (toString i) := by
  have hrepr (n : Nat) : Starts n.repr := by
    obtain ⟨c, cs, hdigits, hc⟩ := toList_repr_cons n
    exact starts_of_toList hdigits hc
  cases i with
  | ofNat n => exact hrepr n
  | negSucc n => exact starts_signText_append true (hrepr (n + 1))

theorem starts_positional (whole : String) (d : Number.Decimal) : Starts (d.positional whole) := by
  obtain ⟨c, cs, hdigits, hc⟩ := toList_repr_cons d.digits
  change (toString d.digits).toList = c :: cs at hdigits
  unfold Number.Decimal.positional
  rw [hdigits]
  dsimp only
  split_ifs with hexponent hpoint
  · exact starts_of_toList String.toList_ofList hc
  · obtain ⟨k, hk⟩ : ∃ k, d.wholeDigits.toNat = k + 1 :=
      Nat.exists_eq_succ_of_ne_zero (by omega)
    rw [hk, List.take_succ_cons]
    exact starts_of_toList String.toList_ofList hc
  · exact starts_of_toList String.toList_ofList (by decide)

theorem starts_scientific (d : Number.Decimal) : Starts d.scientific := by
  obtain ⟨c, cs, hdigits, hc⟩ := toList_repr_cons d.digits
  change (toString d.digits).toList = c :: cs at hdigits
  unfold Number.Decimal.scientific
  rw [hdigits]
  cases cs with
  | nil => exact (starts_of_toList String.toList_ofList hc).append _
  | cons c' cs => exact (starts_of_toList String.toList_ofList hc).append _

theorem starts_documentText {x : Float} {t : String} (h : Number.documentText? x = some t) :
    Starts t := by
  unfold Number.documentText? at h
  cases hx : Number.Binary64.ofFloat x with
  | finite negative mantissa exponent =>
    rw [hx] at h
    obtain rfl := Option.some.inj h
    apply starts_signText_append
    split
    · exact starts_positional _ _
    · exact starts_scientific _
  | infinite negative =>
    rw [hx] at h
    nomatch h
  | nan =>
    rw [hx] at h
    nomatch h

namespace ReadsBack

variable {x : Float}

theorem reads (h : ReadsBack x) : Reads Reader.float (Value.numberText x) x :=
  Reader.framed_float.reads h

theorem starts (h : ReadsBack x) : Starts (Value.numberText x) := by
  cases hx : Number.documentText? x with
  | none =>
    -- What has no text is written as null, which is no number.
    rw [ReadsBack, Value.numberText, hx] at h
    nomatch h
  | some t =>
    rw [Value.numberText, hx]
    exact starts_documentText hx

end ReadsBack

end LSystem.Json
