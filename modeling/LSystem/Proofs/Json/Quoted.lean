import LSystem.Proofs.Json.Reading

/-!
# Strings read back

Every character is written as itself, as a short escape or as its number, and each of these is read
back as the character that it stands for (`run_stringRest_writtenChar`).  So a string of any
characters is read back from what is written, whatever follows (`run_string_written`).
-/

namespace LSystem.Json

open Text (Glyph)

theorem hexValue?_hexDigit {n : Nat} (h : n < 16) : hexValue? (.char (hexDigit n)) = some n := by
  have hall : ∀ k : Fin 16, hexValue? (.char (hexDigit k)) = some k.val := by
    decide
  exact hall ⟨n, h⟩

theorem ofString_written (s : String) :
    Glyph.ofString (written s) =
      .char '"' :: ((s.toList.flatMap writtenChar).map .char ++ [.char '"']) := by
  simp [Glyph.ofString, written]

theorem starts_written (s : String) : Starts (written s) := by
  refine ⟨'"', _, String.toList_ofList, ?_⟩
  decide

namespace Reader

/-! ## Escapes -/

theorem run_escape_short {c d : Char} (h : shortEscapes.lookup c = some d) (rest : List Glyph) :
    (escape true).run (.char c :: rest) = .ok (some d, rest) := by
  have hpeek : peek?.run (.char c :: rest) = .ok (some (.char c), .char c :: rest) := rfl
  have hskip : skip.run (.char c :: rest) = .ok ((), rest) := rfl
  rw [escape, run_bind_of_ok hpeek]
  simp only
  rw [run_bind_of_ok hskip, h]
  rfl

theorem run_hexUnit {n : Nat} (h : n < 0x20) (rest : List Glyph) :
    hexUnit.run (.char '0' :: .char '0' :: .char (hexDigit (n / 16)) ::
      .char (hexDigit (n % 16)) :: rest) = .ok (n, rest) := by
  have hzero : hexValue? (.char '0') = some 0 := rfl
  have hhigh : hexValue? (.char (hexDigit (n / 16))) = some (n / 16) :=
    hexValue?_hexDigit (by omega)
  have hlow : hexValue? (.char (hexDigit (n % 16))) = some (n % 16) :=
    hexValue?_hexDigit (by omega)
  have hvalue : ((0 * 16 + 0) * 16 + n / 16) * 16 + n % 16 = n := by
    omega
  simp only [hexUnit, StateT.run_bind, StateT.run_get, pure_bind, hzero, hhigh, hlow, hvalue]
  rfl

theorem run_escape_unit {c : Char} (h : c.toNat < 0x20) (rest : List Glyph) :
    (escape true).run (.char 'u' :: .char '0' :: .char '0' :: .char (hexDigit (c.toNat / 16)) ::
      .char (hexDigit (c.toNat % 16)) :: rest) = .ok (some c, rest) := by
  have hhigh : isHighHalf c.toNat = false := by
    simp [isHighHalf]
    omega
  have hlow : isLowHalf c.toNat = false := by
    simp [isLowHalf]
    omega
  have hunit : unitChar.run (.char '0' :: .char '0' :: .char (hexDigit (c.toNat / 16)) ::
      .char (hexDigit (c.toNat % 16)) :: rest) = .ok (c, rest) := by
    rw [unitChar, run_bind_of_ok (run_hexUnit h rest), hlow, hhigh, Char.ofNat_toNat]
    rfl
  have hpeek (gs : List Glyph) :
      peek?.run (.char 'u' :: gs) = .ok (some (.char 'u'), .char 'u' :: gs) :=
    rfl
  have hskip (gs : List Glyph) : skip.run (.char 'u' :: gs) = .ok ((), gs) := rfl
  have hlookup : shortEscapes.lookup 'u' = none := rfl
  rw [escape, run_bind_of_ok (hpeek _)]
  simp only
  rw [run_bind_of_ok (hskip _), hlookup]
  exact run_map_of_ok hunit

/-! ## Character by character -/

theorem run_stringRest_raw {c : Char} (hquote : c ≠ '"') (hescape : c ≠ '\\')
    (hcontrol : ¬ c.toNat < 0x20) (fuel : Nat) (done : List Char) (rest : List Glyph) :
    (stringRest true (fuel + 1) (some done)).run (.char c :: rest) =
      (stringRest true fuel (some (c :: done))).run rest := by
  have hpeek : peek?.run (.char c :: rest) = .ok (some (.char c), .char c :: rest) := rfl
  have hskip : skip.run (.char c :: rest) = .ok ((), rest) := rfl
  rw [stringRest, run_bind_of_ok hpeek]
  simp only
  rw [run_bind_of_ok hskip, if_neg hquote, if_neg hescape, if_neg hcontrol]
  rfl

theorem run_stringRest_escape {glyphs rest : List Glyph} {c : Char}
    (h : (escape true).run glyphs = .ok (some c, rest)) (fuel : Nat) (done : List Char) :
    (stringRest true (fuel + 1) (some done)).run (.char '\\' :: glyphs) =
      (stringRest true fuel (some (c :: done))).run rest := by
  have hpeek : peek?.run (.char '\\' :: glyphs) =
      .ok (some (.char '\\'), .char '\\' :: glyphs) := rfl
  have hskip : skip.run (.char '\\' :: glyphs) = .ok ((), glyphs) := rfl
  rw [stringRest, run_bind_of_ok hpeek]
  simp only
  rw [run_bind_of_ok hskip, if_neg (by decide), if_pos trivial, run_bind_of_ok h]
  rfl

theorem run_stringRest_writtenChar (c : Char) (fuel : Nat) (done : List Char) (rest : List Glyph) :
    (stringRest true (fuel + 1) (some done)).run ((writtenChar c).map .char ++ rest) =
      (stringRest true fuel (some (c :: done))).run rest := by
  unfold writtenChar
  split_ifs with hquote hbackslash hbackspace hfeed hline hreturn htab hcontrol
  -- The first seven cases are the characters with a short escape.
  iterate 7
    · subst_vars
      exact run_stringRest_escape (run_escape_short rfl rest) fuel done
  · exact run_stringRest_escape (run_escape_unit hcontrol rest) fuel done
  · exact run_stringRest_raw hquote hbackslash hcontrol fuel done rest

theorem run_stringRest_written (cs : List Char) {fuel : Nat} (hfuel : cs.length < fuel)
    (done : List Char) (rest : List Glyph) :
    (stringRest true fuel (some done)).run
        ((cs.flatMap writtenChar).map .char ++ .char '"' :: rest) =
      .ok (String.ofList (done.reverse ++ cs), rest) := by
  induction cs generalizing fuel done with
  | nil =>
    obtain ⟨fuel, rfl⟩ : ∃ n, fuel = n + 1 := Nat.exists_eq_succ_of_ne_zero (by omega)
    rw [List.append_nil]
    rfl
  | cons c cs ih =>
    obtain ⟨fuel, rfl⟩ : ∃ n, fuel = n + 1 := Nat.exists_eq_succ_of_ne_zero (by omega)
    rw [List.length_cons] at hfuel
    rw [List.flatMap_cons, List.map_append, List.append_assoc, run_stringRest_writtenChar,
      ih (by omega), List.reverse_cons, List.append_assoc]
    rfl

theorem length_le_length_flatMap_writtenChar (cs : List Char) :
    cs.length ≤ (cs.flatMap writtenChar).length := by
  induction cs with
  | nil => exact Nat.le_refl 0
  | cons c cs ih =>
    have hc : 0 < (writtenChar c).length := by
      unfold writtenChar
      split_ifs <;> exact Nat.zero_lt_succ _
    rw [List.flatMap_cons, List.length_append, List.length_cons]
    omega

/-- A string is read back from what is written, whatever comes after it. -/
theorem run_string_written (s : String) (rest : List Glyph) :
    (string true).run (Glyph.ofString (written s) ++ rest) = .ok (s, rest) := by
  let inner : List Glyph := (s.toList.flatMap writtenChar).map .char ++ .char '"' :: rest
  have hwritten : Glyph.ofString (written s) ++ rest = .char '"' :: inner := by
    simp [ofString_written, inner]
  have hrequire : (require '"').run (.char '"' :: inner) = .ok ((), inner) := rfl
  have hget : (get : Reader (List Glyph)).run inner = .ok (inner, inner) := rfl
  have hfuel : s.toList.length < inner.length + 1 := by
    have hlength := length_le_length_flatMap_writtenChar s.toList
    simp only [inner, List.length_append, List.length_map]
    omega
  rw [hwritten, string, run_bind_of_ok hrequire, run_bind_of_ok hget,
    run_stringRest_written s.toList hfuel]
  simp

end Reader

end LSystem.Json
