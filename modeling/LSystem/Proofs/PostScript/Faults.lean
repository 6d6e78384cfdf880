import LSystem.Proofs.PostScript.Emission

/-!
# Paths on sinks that run full

A line has its only line end at its very end.  So the line ends that a sink has taken are the lines
that a path has counted, wherever the sink ran full (`calls_accepts`).  After a failure nothing is
written and nothing is counted any more, and the path ends with just that failure (`finish_failed`).
-/

namespace LSystem.PostScript

/-! ## Line ends -/

/-- The byte that ends a line. -/
def lineEnd : UInt8 := 10

/-- How many lines some bytes end. -/
def completeLines (bytes : ByteArray) : Nat := bytes.data.count lineEnd

theorem completeLines_append (a b : ByteArray) :
    completeLines (a ++ b) = completeLines a + completeLines b := by
  unfold completeLines
  rw [ByteArray.data_append, Array.count_append]

theorem lineEnd_not_mem_utf8EncodeChar {c : Char} (hc : c ≠ '\n') :
    lineEnd ∉ String.utf8EncodeChar c := by
  have hne : c.val.toNat ≠ 10 := fun h ↦ hc (Char.ext (UInt32.toNat_inj.mp h))
  have hbyte (n : Nat) (h : n % 256 ≠ 10) : lineEnd ≠ UInt8.ofNat n := by
    intro heq
    exact h (congrArg UInt8.toNat heq).symm
  unfold String.utf8EncodeChar
  dsimp only
  -- Whatever takes more than one byte has no byte below 128.
  split_ifs with hone htwo hthree
  all_goals simp only [List.mem_cons, List.not_mem_nil, or_false, not_or]
  · exact hbyte _ (by omega)
  · exact ⟨hbyte _ (by omega), hbyte _ (by omega)⟩
  · exact ⟨hbyte _ (by omega), hbyte _ (by omega), hbyte _ (by omega)⟩
  · exact ⟨hbyte _ (by omega), hbyte _ (by omega), hbyte _ (by omega), hbyte _ (by omega)⟩

theorem completeLines_toUTF8 {text : String} (h : '\n' ∉ text.toList) :
    completeLines text.toUTF8 = 0 := by
  have hbytes : text.toUTF8.data = (text.toList.flatMap String.utf8EncodeChar).toArray := by
    rw [String.toUTF8_eq_toByteArray, ← String.ofList_toList (s := text),
      String.toByteArray_ofList, String.toList_ofList]
    exact List.data_toByteArray
  rw [completeLines, hbytes, Array.count_eq_zero, List.mem_toArray, List.mem_flatMap]
  rintro ⟨c, hc, hmem⟩
  exact lineEnd_not_mem_utf8EncodeChar (fun heq ↦ h (heq ▸ hc)) hmem

variable {text : String}

theorem toUTF8_line (text : String) : (text ++ "\n").toUTF8 = text.toUTF8 ++ "\n".toUTF8 :=
  String.toByteArray_append

theorem completeLines_line (h : '\n' ∉ text.toList) : completeLines (text ++ "\n").toUTF8 = 1 := by
  rw [toUTF8_line, completeLines_append, completeLines_toUTF8 h]
  rfl

theorem completeLines_extract (h : '\n' ∉ text.toList) {n : Nat}
    (hn : n < (text ++ "\n").toUTF8.size) :
    completeLines ((text ++ "\n").toUTF8.extract 0 n) = 0 := by
  have hle : n ≤ text.toUTF8.size := by
    rw [toUTF8_line, ByteArray.size_append] at hn
    exact Nat.le_of_lt_succ hn
  have hsplit : text.toUTF8.extract 0 n ++ text.toUTF8.extract n text.toUTF8.size =
      text.toUTF8 := by
    rw [ByteArray.extract_append_extract, Nat.zero_min, Nat.max_eq_right hle,
      ByteArray.extract_zero_size]
  have hcount := completeLines_toUTF8 h
  rw [← hsplit, completeLines_append] at hcount
  rw [toUTF8_line, extract_append_of_le hle]
  exact (Nat.add_eq_zero_iff.mp hcount).1

/-! ## Lines that are counted -/

namespace Path

variable {α : Type} [Scalar α] {error : WriteError}

/-- A line is counted just if its line end is taken. -/
theorem emit_accepts (path : Path) (op : Operator) :
    ∃ accepted, (path.emit op).sink = path.sink.take accepted ∧
      (path.emit op).lines = path.lines + completeLines accepted := by
  rcases path with ⟨sink, _ | error, lines, isOpen⟩
  · unfold emit
    dsimp only
    rw [Sink.write_eq_put]
    by_cases h : sink.Holds (op.text ++ "\n").toUTF8.size
    · rw [Sink.put_of_holds h]
      refine ⟨_, rfl, ?_⟩
      rw [completeLines_line op.newline_not_mem_text]
    · rcases Sink.put_of_not_holds h with ⟨room, -, hlt, hput⟩
      rw [hput]
      refine ⟨_, rfl, ?_⟩
      rw [completeLines_extract op.newline_not_mem_text hlt]
      rfl
  · exact ⟨.empty, sink.take_empty.symm, rfl⟩

theorem emits_accepts (path : Path) (ops : List Operator) :
    ∃ accepted, (path.emits ops).sink = path.sink.take accepted ∧
      (path.emits ops).lines = path.lines + completeLines accepted := by
  induction ops generalizing path with
  | nil => exact ⟨.empty, path.sink.take_empty.symm, rfl⟩
  | cons op ops ih =>
    rcases path.emit_accepts op with ⟨first, hsink, hlines⟩
    rcases ih (path.emit op) with ⟨rest, hsinks, hcount⟩
    refine ⟨first ++ rest, ?_, ?_⟩
    · rw [Sink.take_append, ← hsink]
      exact hsinks
    · rw [completeLines_append, ← Nat.add_assoc, ← hlines]
      exact hcount

theorem calls_accepts (t : Turtle Path α) (cs : List (Call α)) :
    ∃ accepted, (t.calls cs).medium.sink = t.medium.sink.take accepted ∧
      (t.calls cs).medium.lines = t.medium.lines + completeLines accepted := by
  rw [calls_eq]
  exact t.medium.emits_accepts _

/-! ## Failures that are kept -/

theorem emits_failed {path : Path} (h : path.fault = some error) (ops : List Operator) :
    path.emits ops = path := by
  induction ops with
  | nil => rfl
  | cons op ops ih =>
    have hemit : path.emit op = path := by
      rcases path with ⟨sink, fault, lines, isOpen⟩
      cases h
      rfl
    rw [emits, List.foldl_cons, hemit]
    exact ih

theorem calls_failed {t : Turtle Path α} (h : t.medium.fault = some error) (cs : List (Call α)) :
    let path := (t.calls cs).medium
    path.fault = some error ∧ path.sink = t.medium.sink ∧ path.lines = t.medium.lines := by
  rw [calls_eq, emits_failed h]
  exact ⟨h, rfl, rfl⟩

theorem finish_failed {path : Path} (h : path.fault = some error) :
    path.finish = (some error, path.sink) := by
  rw [finish_eq, emits_failed h, outcome, h]
  rfl

end Path

end LSystem.PostScript
