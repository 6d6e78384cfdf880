import LSystem.Proofs.PostScript.Prologue

/-!
# Titles

A title is written as a string.  Strings of the page language stand between parentheses, which nest;
so an unescaped parenthesis or a backslash in a title could end the string too early or not at all, and
a line end could start a new comment.  Neither happens: a title never leaves its line and is read back
from it, its line ends as spaces (`title_confined`).
-/

namespace LSystem.PostScript

/-! ## Reading strings -/

/-- Puts a character before what has been read. -/
def withChar (c : Char) (read : List Char × List Char) : List Char × List Char :=
  (c :: read.1, read.2)

/-- Reads a string to the parenthesis that closes it: what is in it, and what stands after it.  So far
`depth` more parentheses are open, and a character that is escaped is taken as it is. -/
def stringRest? : (depth : ℕ) → (escaped : Bool) → List Char → Option (List Char × List Char)
  | _, _, [] => none
  | depth, true, c :: cs => (stringRest? depth false cs).map (withChar c)
  | depth, false, c :: cs =>
    if c = '\\' then stringRest? depth true cs
    else if c = '(' then (stringRest? (depth + 1) false cs).map (withChar c)
    else if c = ')' then
      match depth with
      | 0 => some ([], cs)
      | depth + 1 => (stringRest? depth false cs).map (withChar c)
    else (stringRest? depth false cs).map (withChar c)

/-- Reads a string with its parentheses. -/
def string? : List Char → Option (List Char × List Char)
  | '(' :: cs => stringRest? 0 false cs
  | _ => none

example : string? "(a (b) \\)) c".toList = some ("a (b) )".toList, " c".toList) := by decide +kernel

-- The parenthesis that is open takes the one that should close the string.
example : string? "(a (b)\n".toList = none := by decide +kernel

/-! ## What is written is read back -/

/-- A character as a title shows it. -/
def shown (c : Char) : Char := if c = '\n' ∨ c = '\r' then ' ' else c

theorem stringRest?_of_plain {c : Char} (h : ¬ (c = '(' ∨ c = ')' ∨ c = '\\')) (depth : ℕ)
    (cs : List Char) :
    stringRest? depth false (c :: cs) = (stringRest? depth false cs).map (withChar c) := by
  have hplain : ¬ c = '(' ∧ ¬ c = ')' ∧ ¬ c = '\\' := by simpa using h
  simp [stringRest?, hplain]

theorem stringRest?_literalChar (depth : ℕ) (c : Char) (cs : List Char) :
    stringRest? depth false (literalChar c ++ cs) =
      (stringRest? depth false cs).map (withChar (shown c)) := by
  by_cases hescaped : c = '(' ∨ c = ')' ∨ c = '\\'
  · have hshown : shown c = c := by
      rcases hescaped with rfl | rfl | rfl <;> decide
    rw [literalChar, if_pos hescaped, hshown]
    rfl
  · by_cases hend : c = '\n' ∨ c = '\r'
    · rw [literalChar, if_neg hescaped, if_pos hend, shown, if_pos hend]
      rfl
    · rw [literalChar, if_neg hescaped, if_neg hend, shown, if_neg hend]
      exact stringRest?_of_plain hescaped depth cs

theorem stringRest?_literal (cs rest : List Char) :
    stringRest? 0 false (cs.flatMap literalChar ++ ')' :: rest) = some (cs.map shown, rest) := by
  induction cs with
  | nil => rfl
  | cons c cs ih =>
    rw [List.flatMap_cons, List.append_assoc, stringRest?_literalChar, ih]
    rfl

theorem string?_literal (s : String) (rest : List Char) :
    string? (("(" ++ literal s ++ ")").toList ++ rest) = some (s.toList.map shown, rest) := by
  have hwritten : ("(" ++ literal s ++ ")").toList ++ rest =
      '(' :: (s.toList.flatMap literalChar ++ ')' :: rest) := by
    simp [literal, String.toList_append]
  rw [hwritten]
  exact stringRest?_literal s.toList rest

/-! ## Titles on their lines -/

variable {α : Type} [Scalar α]

/-- No title changes any line of a prologue but its own: the lines before and after are always the same.
What is on that line after the key is one string, without a line end in it, which is read to the
end of the line whatever follows, and contains the title with its line ends as spaces. -/
theorem title_confined (bounds : Box α) (viewport : Viewport α) (lineWidth : α) :
    ∃ first others, ∀ title, ∃ text,
      lines (prologue title bounds viewport lineWidth) = first :: ("%%Title: " ++ text) :: others ∧
      comment? "%%Title: " (lines (prologue title bounds viewport lineWidth)) = some text ∧
      (∀ c ∈ text.toList, c ≠ '\n' ∧ c ≠ '\r') ∧
      ∀ rest, string? (text.toList ++ rest) = some (title.toList.map shown, rest) := by
  refine ⟨"%!PS-Adobe-3.0 EPSF-3.0",
    (prologueLines "" bounds viewport lineWidth).drop 2 ++ [""], fun title ↦ ?_⟩
  have hkey : "%%Title: (" ++ literal title ++ ")" = "%%Title: " ++ ("(" ++ literal title ++ ")") := by
    rw [show "%%Title: (" = "%%Title: " ++ "(" by decide, String.append_assoc, String.append_assoc,
      String.append_assoc]
  have hlines : lines (prologue title bounds viewport lineWidth) =
      "%!PS-Adobe-3.0 EPSF-3.0" :: ("%%Title: " ++ ("(" ++ literal title ++ ")")) ::
        ((prologueLines "" bounds viewport lineWidth).drop 2 ++ [""]) := by
    rw [lines_prologue, ← hkey]
    rfl
  refine ⟨"(" ++ literal title ++ ")", hlines, ?_, ?_, string?_literal title⟩
  · rw [hlines, comment?_cons_of_none (by decide), comment?_cons_key]
  · intro c hc
    have hparts : c = '(' ∨ c ∈ (literal title).toList ∨ c = ')' := by
      simpa [String.toList_append, or_assoc] using hc
    constructor <;> rintro rfl <;> simp [lineEnd_not_mem_literal] at hparts

end LSystem.PostScript
