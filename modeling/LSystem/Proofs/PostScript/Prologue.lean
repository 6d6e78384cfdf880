import LSystem.Proofs.PostScript.Machine
import Mathlib.Data.List.Basic

/-!
# The lines of a prologue

No line of a prologue has a line end in it, whatever its title and its numbers are; so the text of a
prologue is split into the lines that it was put together from (`lines_prologue`).  A comment among
them is found by its key.
-/

namespace LSystem.PostScript

variable {α : Type} [Scalar α]

/-! ## Lines -/

theorem lineEnd_not_mem_literal (s : String) {c : Char} (hc : c = '\n' ∨ c = '\r') :
    c ∉ (literal s).toList := by
  unfold literal
  rw [String.toList_ofList, List.mem_flatMap]
  rintro ⟨d, -, hd⟩
  unfold literalChar at hd
  split_ifs at hd with hescaped hend
  · have hmem : c = '\\' ∨ c = d := by simpa using hd
    rcases hescaped with rfl | rfl | rfl <;> rcases hmem with rfl | rfl <;> revert hc <;> decide
  · rcases hc with rfl | rfl <;> exact absurd hd (by decide)
  · exact hend ((List.mem_singleton.mp hd) ▸ hc)

theorem newline_not_mem_text {places : Nat} (x : Number.Fixed places) : '\n' ∉ x.text.toList :=
  not_mem_numeral (isNumeral_text x) (Or.inr (Or.inl rfl))

theorem isNumeral_toString (i : Int) : isNumeral (toString i) = true := by
  rw [Number.Fixed.toString_eq_text]
  exact isNumeral_text _

theorem newline_not_mem_prologueLines (title : String) (bounds : Box α) (viewport : Viewport α)
    (lineWidth : α) : ∀ l ∈ prologueLines title bounds viewport lineWidth, '\n' ∉ l.toList := by
  have happend {s t : String} (hs : '\n' ∉ s.toList) (ht : '\n' ∉ t.toList) :
      '\n' ∉ (s ++ t).toList := by
    rw [String.toList_append, List.mem_append, not_or]
    exact ⟨hs, ht⟩
  have htitle : '\n' ∉ (literal title).toList := lineEnd_not_mem_literal title (Or.inl rfl)
  have hcorners : ∀ w ∈ (integerCorners (pageBox bounds viewport lineWidth)).map toString,
      '\n' ∉ w.toList := by
    intro w hw
    rcases List.mem_map.mp hw with ⟨i, -, rfl⟩
    exact not_mem_numeral (isNumeral_toString i) (Or.inr (Or.inl rfl))
  have hfine : ∀ w ∈ fineCorners (pageBox bounds viewport lineWidth), '\n' ∉ w.toList := by
    intro w hw
    rcases List.mem_map.mp hw with ⟨a, -, rfl⟩
    exact newline_not_mem_text _
  have hspaced {places : Nat} (x y : Number.Fixed places) {operator : String}
      (h : '\n' ∉ operator.toList) : '\n' ∉ (spaced [x.text, y.text, operator]).toList := by
    apply newline_not_mem_spaced
    simp [newline_not_mem_text, h]
  unfold prologueLines
  simp only [List.forall_mem_cons, List.not_mem_nil, false_implies, implies_true, and_true]
  refine ⟨by decide, ?_, by decide, ?_, ?_, by decide, by decide, by decide, ?_, ?_, ?_, by decide⟩
  · exact happend (happend (by decide) htitle) (by decide)
  · exact happend (by decide) (newline_not_mem_spaced hcorners)
  · exact happend (by decide) (newline_not_mem_spaced hfine)
  · exact hspaced _ _ (by decide)
  · exact hspaced _ _ (by decide)
  · apply newline_not_mem_spaced
    simp [newline_not_mem_text]

theorem lines_prologue (title : String) (bounds : Box α) (viewport : Viewport α) (lineWidth : α) :
    lines (prologue title bounds viewport lineWidth) =
      prologueLines title bounds viewport lineWidth ++ [""] :=
  lines_unlines (newline_not_mem_prologueLines title bounds viewport lineWidth)

/-! ## Comments -/

/-- What stands after a key on the first line that begins with it. -/
def comment? (key : String) (ls : List String) : Option String :=
  ls.findSome? fun l ↦ (l.toList.dropPrefix? key.toList).map String.ofList

theorem comment?_cons_of_none {key l : String} (h : l.toList.dropPrefix? key.toList = none)
    (ls : List String) : comment? key (l :: ls) = comment? key ls := by
  unfold comment?
  rw [List.findSome?_cons, h]
  rfl

theorem comment?_cons_key (key s : String) (ls : List String) :
    comment? key ((key ++ s) :: ls) = some s := by
  have hdrop : (key ++ s).toList.dropPrefix? key.toList = some s.toList := by
    rw [String.toList_append]
    exact List.dropPrefix?_append_of_beq s.toList (beq_self_eq_true key.toList)
  unfold comment?
  rw [List.findSome?_cons, hdrop]
  simp

end LSystem.PostScript
