import LSystem.Proofs.Figure.Passes
import LSystem.Proofs.Media.Drawing

/-! The path of a page paints what the record of the figure holds. -/

namespace LSystem

open LSystem.PostScript (Paints Path finish_calls trailer)

variable {α : Type} [Scalar α]

namespace Figure

theorem segments_record (f : Figure α) (rounds : Nat) :
    (f.record rounds).value.segments.toList = (Pen.initial : Pen α).strokes (f.calls rounds) := by
  have hrecord : (f.record rounds).value.segments =
      ((Turtle.on ({} : Drawing α)).calls (f.calls rounds)).medium.segments :=
    congrArg (fun t : Turtle (Drawing α) α ↦ t.medium.segments)
      (f.turtle_pass ({} : Drawing α) rounds)
  have hactions (pose : Pose α) :
      Call.place pose ∉ (f.grammar.calls (f.leaves rounds)).map Call.perform := by simp
  rw [hrecord]
  exact ((f.setup.apply (Turtle.on {})).record_calls hactions).2

/-- The text of a path means exactly what is drawn.  Whatever a turtle on a fresh path is told, in
any order, the lines that it leaves on a sink that takes everything paint each of its strokes once,
in order, and nothing else; and the path of a page paints the segments of the record. -/
theorem page_paints_segments :
    (∀ (taken : ByteArray) (cs : List (Call α)), ∃ text : String,
      ((Turtle.on ({ sink := { taken } } : Path)).calls cs).medium.finish =
        (none, { taken := taken ++ text.toUTF8 }) ∧
      Paints text ((Pen.initial : Pen α).strokes cs)) ∧
    ∀ (f : Figure α) (rounds n : Nat) (options : Options α), f.checkBudget rounds options = .ok n →
      ∀ (title : String) (taken : ByteArray), ∃ body : String,
        (f.eps rounds title options { taken }).value =
          (.ok (f.dryRun rounds).value,
            { taken := taken ++ (f.pagePrologue rounds title options ++ body ++ trailer).toUTF8 }) ∧
        Paints body (f.record rounds).value.segments.toList := by
  refine ⟨fun taken cs => ?_, fun f rounds n options h title taken => ?_⟩
  · exact finish_calls taken (Turtle.on { sink := { taken } }) rfl rfl cs
  · rw [segments_record]
    exact eps_paints h title taken

theorem page_paints_segments_doubling :
    doubling.checkBudget 2 .standard = .ok 4 ∧
      ∃ body : String,
        (doubling.eps 2 "line" .standard {}).value =
          (.ok (doubling.dryRun 2).value,
            { taken := .empty ++
                (doubling.pagePrologue 2 "line" .standard ++ body ++ trailer).toUTF8 }) ∧
        Paints body (doubling.record 2).value.segments.toList :=
  ⟨checkBudget_doubling,
    page_paints_segments.2 doubling 2 4 .standard checkBudget_doubling "line" .empty⟩

end Figure

end LSystem
