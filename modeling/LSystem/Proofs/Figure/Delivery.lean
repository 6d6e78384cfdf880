import LSystem.Proofs.Figure.Bounds
import LSystem.Proofs.Figure.Passes
import LSystem.Proofs.PostScript.Faults

/-!
# Pages on sinks that run full

A page is one text that is written from its beginning, so what a sink takes of it is as much of the
text as there is room for.  Wherever the sink runs full, in the prologue, in any line of the path or
in the trailer, nothing is written after that, and the failure of the sink is reported.
-/

namespace LSystem.Figure

open PostScript (Path completeLines)
open PostScript.Path (callsText)

variable {α : Type} [Scalar α] {f : Figure α} {rounds : Nat} {options : Options α} {title : String}

theorem eps_of_refused {error : RenderError} (h : f.checkBudget rounds options = .error error)
    (title : String) (sink : Sink) :
    f.eps rounds title options sink = { value := (.error error, sink), figure := f } := by
  unfold eps
  simp only [h]

/-- A page that is written in full somewhere is the text that is written everywhere. -/
theorem eps_of_delivered {b : Box α} {page : Sink}
    (h : (f.eps rounds title options {}).value = (.ok b, page)) {sink : Sink}
    (hflush : sink.flush = none) :
    (f.eps rounds title options sink).value =
      let (failure, sink) := sink.put page.taken
      (orFailure b failure, sink) := by
  cases hbudget : f.checkBudget rounds options with
  | error error =>
    rw [eps_of_refused hbudget] at h
    nomatch h
  | ok n =>
    rw [eps_eq_write hbudget rfl] at h
    obtain ⟨hbox, rfl⟩ := Prod.mk.inj h
    obtain rfl := Except.ok.inj hbox
    have htaken : ByteArray.empty ++ (f.pageText rounds title options).toUTF8 =
        (f.pageText rounds title options).toUTF8 := ByteArray.empty_append
    rw [eps_eq_write hbudget hflush, Sink.write_eq_put, htaken]

/-- Pages on sinks with little room.  In whatever portions a sink takes what is written, it ends the
same way.  If a page can be written at all, a sink with some room takes as much of its beginning as
there is room for, and the page is done just if that was everything; otherwise the failure of the
sink is reported.  A path on its own counts the lines that have been taken in full, keeps its first
failure, and reports that one in the end, or else that what was taken could not be passed on.  A run
that is refused writes nothing and leaves the figure with its source as it was. -/
theorem page_beginning_of_room :
    (∀ (sink last : Sink) (text : String) (failure : Option WriteError),
      sink.Delivers text.toUTF8 failure last ↔ sink.write text = (failure, last)) ∧
    (∀ (f : Figure α) (rounds : Nat) (title : String) (options : Options α) (b : Box α)
      (page : Sink), (f.eps rounds title options {}).value = (.ok b, page) →
      ∀ (taken : ByteArray) (room : Nat),
        let result := (f.eps rounds title options { taken, room := some room }).value
        (result.1 = .ok b ↔ page.taken.size ≤ room) ∧
        (room < page.taken.size → result.1 = .error (.io .full)) ∧
        result.2.taken = taken ++ page.taken.extract 0 (min room page.taken.size) ∧
        ∀ failure sink, Sink.Delivers { taken, room := some room } page.taken failure sink →
          result = (orFailure b failure, sink)) ∧
    (∀ (sink : Sink) (cs : List (Call α)),
      let path := ((Turtle.on ({ sink } : Path)).calls cs).medium
      (∃ accepted, path.sink.taken = sink.taken ++ accepted ∧ path.lines = completeLines accepted) ∧
      (path.finish =
        let (failure, last) := sink.write (callsText (Pen.initial : Pen α) cs)
        (failure <|> last.flush, last)) ∧
      ∀ error, path.fault = some error → ∀ more : List (Call α),
        let later := ((Turtle.on ({ sink } : Path)).calls (cs ++ more)).medium
        later.sink = path.sink ∧ later.lines = path.lines ∧
          later.finish = (some error, path.sink)) ∧
    ∀ (f : Figure α) (rounds : Nat) (title : String) (options : Options α) (sink : Sink)
      (error : RenderError), f.checkBudget rounds options = .error error →
      f.eps rounds title options sink = { value := (.error error, sink), figure := f } := by
  refine ⟨fun sink last text failure ↦ sink.write_eq_put text ▸ Sink.delivers_iff,
    fun f rounds title options b page h taken room ↦ ?_, fun sink cs ↦ ⟨?_, ?_, ?_⟩, ?_⟩
  · let sink : Sink := { taken, room := some room }
    have hpage : (f.eps rounds title options sink).value =
        (orFailure b (sink.put page.taken).1, (sink.put page.taken).2) := eps_of_delivered h rfl
    have hfailure : (sink.put page.taken).1 =
        if page.taken.size ≤ room then none else some .full :=
      if_congr (by simp [Sink.Holds, sink]) rfl rfl
    refine ⟨?_, ?_, ?_, ?_⟩
    · rw [hpage, hfailure]
      by_cases hfits : page.taken.size ≤ room
      · rw [if_pos hfits]
        exact iff_of_true rfl hfits
      · rw [if_neg hfits]
        exact iff_of_false nofun hfits
    · intro hlt
      rw [hpage, hfailure, if_neg (Nat.not_le_of_lt hlt)]
      rfl
    · rw [hpage]
      rfl
    · intro failure last hdelivers
      rw [hpage, hdelivers.put_eq]
  · rcases Path.calls_accepts (Turtle.on ({ sink } : Path)) cs with ⟨accepted, hsink, hlines⟩
    refine ⟨accepted, ?_, ?_⟩
    · rw [hsink]
      rfl
    · rw [hlines]
      exact Nat.zero_add _
  · exact Path.finish_calls_eq (Turtle.on ({ sink } : Path)) sink rfl cs
  · intro error hfault more
    have hlater := Path.calls_failed hfault more
    rw [← Turtle.calls_append] at hlater
    rcases hlater with ⟨hkept, hsink, hlines⟩
    exact ⟨hsink, hlines, (Path.finish_failed hkept).trans (congrArg (some error, ·) hsink)⟩
  · intro f rounds title options sink error h
    exact eps_of_refused h title sink

-- The page of a square has 434 bytes.
theorem page_beginning_of_room_corner :
    let _ : Scalar ℚ := .exact ℚ quarterTurn id
    (∃ page : Sink,
      (corner.eps 2 "corner" .standard {}).value = (.ok (corner.dryRun 2).value, page) ∧
      page.taken.size = 434 ∧
      (corner.eps 2 "corner" .standard { room := some 434 }).value.1 =
        .ok (corner.dryRun 2).value ∧
      (corner.eps 2 "corner" .standard { room := some 433 }).value.1 = .error (.io .full) ∧
      (corner.eps 2 "corner" .standard { room := some 433 }).value.2.taken =
        .empty ++ page.taken.extract 0 433) ∧
    (let draw : List (Call ℚ) := [.perform .draw]
      let path := ((Turtle.on ({ sink := { room := some 0 } } : Path)).calls draw).medium
      path.fault = some .full ∧
        ((Turtle.on ({ sink := { room := some 0 } } : Path)).calls (draw ++ draw)).medium.finish =
          (some .full, path.sink)) ∧
    corner.checkBudget 1025 .standard = .error (.tooDeep 1025 1024) ∧
      corner.eps 1025 "corner" .standard {} =
        { value := (.error (.tooDeep 1025 1024), {}), figure := corner } := by
  intro _
  rcases page_beginning_of_room (α := ℚ) with ⟨-, hroom, hpath, hrefused⟩
  refine ⟨?_, ?_, ?_⟩
  · have hbudget : corner.checkBudget 2 .standard = .ok 7 := by decide +kernel
    have hsize : (corner.eps 2 "corner" .standard {}).value.2.taken.size = 434 := by
      decide +kernel
    obtain ⟨page, hpage⟩ : ∃ page, (corner.eps 2 "corner" .standard {}).value =
        (.ok (corner.dryRun 2).value, page) := ⟨_, eps_eq_write hbudget rfl⟩
    rw [hpage] at hsize
    rcases hroom corner 2 "corner" .standard _ page hpage .empty 434 with ⟨hdone, -⟩
    rcases hroom corner 2 "corner" .standard _ page hpage .empty 433 with ⟨-, hfull, htaken, -⟩
    refine ⟨page, hpage, hsize, hdone.mpr (Nat.le_of_eq hsize), hfull ?_, ?_⟩
    · rw [hsize]
      decide
    · rw [htaken, hsize]
      rfl
  · rcases hpath { room := some 0 } [.perform .draw] with ⟨-, -, hkept⟩
    have hfault : ((Turtle.on ({ sink := { room := some 0 } } : Path)).calls
        [(.perform .draw : Call ℚ)]).medium.fault = some .full := by decide +kernel
    exact ⟨hfault, (hkept .full hfault [.perform .draw]).2.2⟩
  · have hbudget : corner.checkBudget 1025 .standard = .error (.tooDeep 1025 1024) := by
      decide +kernel
    exact ⟨hbudget, hrefused corner 1025 "corner" .standard {} _ hbudget⟩

end LSystem.Figure
