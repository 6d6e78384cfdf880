import LSystem.Proofs.Media.Sink
import LSystem.Proofs.PostScript.Machine
import LSystem.Proofs.Turtle.Calls

/-!
# What is written

One line for each operator, and the operators of a motion depend only on whether a path is open.  So
what a path comes to, on whatever sink, is what writing all its lines at once comes to
(`finish_calls_eq`).
-/

namespace LSystem.PostScript

open Figure (writeNext)

/-! ## The lines of operators -/

namespace Operator

def tokens : Operator → List Token
  | openPath c => [.newpath, .numeral c.x.text, .numeral c.y.text, .moveto]
  | lineTo c => [.numeral c.x.text, .numeral c.y.text, .lineto]
  | moveTo c => [.numeral c.x.text, .numeral c.y.text, .moveto]
  | breakPath => [.currentpoint, .stroke, .newpath, .moveto]
  | restart c => [.stroke, .newpath, .numeral c.x.text, .numeral c.y.text, .moveto]
  | stroke => [.stroke]

theorem text_eq (op : Operator) : op.text = spaced (op.tokens.map Token.word) := by
  cases op with
  | openPath c =>
    show "newpath " ++ c.text ++ " moveto" = spaced ["newpath", c.x.text, c.y.text, "moveto"]
    simp [spaced, Coordinates.text, String.append_assoc]
  | lineTo c =>
    show c.text ++ " lineto" = spaced [c.x.text, c.y.text, "lineto"]
    simp [spaced, Coordinates.text, String.append_assoc]
  | moveTo c =>
    show c.text ++ " moveto" = spaced [c.x.text, c.y.text, "moveto"]
    simp [spaced, Coordinates.text, String.append_assoc]
  | breakPath => decide
  | restart c =>
    have hline : "stroke newpath " = "stroke " ++ "newpath " := by decide
    have hspaced : spaced ((restart c).tokens.map Token.word) =
        "stroke " ++ ("newpath " ++ (c.x.text ++ (" " ++ (c.y.text ++ " moveto")))) := by
      simp [tokens, Token.word, spaced, String.append_assoc]
    show "stroke newpath " ++ c.text ++ " moveto" = _
    rw [hspaced, hline, Coordinates.text]
    simp only [String.append_assoc]
  | stroke => decide

theorem wellFormed_tokens (op : Operator) : ∀ t ∈ op.tokens, t.WellFormed := by
  cases op <;> simp [tokens, Token.WellFormed, isNumeral_text]

theorem tokens_ne_nil (op : Operator) : op.tokens ≠ [] := by
  cases op <;> simp [tokens]

theorem newline_not_mem_text (op : Operator) : '\n' ∉ op.text.toList := by
  rw [text_eq]
  apply newline_not_mem_spaced
  intro w hw
  rcases List.mem_map.mp hw with ⟨t, ht, rfl⟩
  exact not_mem_word (op.wellFormed_tokens t ht) (Or.inr rfl)

end Operator

/-! ## Paths -/

theorem unlines_cons (l : String) (ls : List String) :
    unlines (l :: ls) = l ++ "\n" ++ unlines ls := by
  simp [unlines]

variable {α : Type} [Scalar α]

/-- What opens a path, unless one is open. -/
def opening (isOpen : Bool) (p : Point α) : List Operator :=
  if isOpen then [] else [.openPath (.ofPoint p)]

/-- The operators that a motion leaves. -/
def operators (isOpen : Bool) : Motion α → List Operator
  | .drawn source target => opening isOpen source ++ [.lineTo (.ofPoint target)]
  | .moved source target => opening isOpen source ++ [.moveTo (.ofPoint target)]
  | .saved position => opening isOpen position ++ [.breakPath]
  | .restored position => [.restart (.ofPoint position)]
  | .placed pose =>
    if isOpen then [.restart (.ofPoint pose.position)] else opening isOpen pose.position

/-- Whether a path is open after a motion. -/
def opened (isOpen : Bool) : Motion α → Bool
  | .restored _ => isOpen
  | _ => true

def callOperators (isOpen : Bool) (p : Pen α) (c : Call α) : List Operator :=
  (p.seen? c).elim [] (operators isOpen)

def callOpened (isOpen : Bool) (p : Pen α) (c : Call α) : Bool :=
  (p.seen? c).elim isOpen (opened isOpen)

def callsOperators : Bool → Pen α → List (Call α) → List Operator
  | _, _, [] => []
  | isOpen, p, c :: cs =>
    callOperators isOpen p c ++ callsOperators (callOpened isOpen p c) (p.call c) cs

def callsOpened : Bool → Pen α → List (Call α) → Bool
  | isOpen, _, [] => isOpen
  | isOpen, p, c :: cs => callsOpened (callOpened isOpen p c) (p.call c) cs

namespace Path

/-- What strokes the path that is open. -/
def closing (isOpen : Bool) : List Operator := if isOpen then [.stroke] else []

/-- The text of the path that a fresh turtle leaves. -/
def callsText (p : Pen α) (cs : List (Call α)) : String :=
  unlines ((callsOperators false p cs ++ closing (callsOpened false p cs)).map Operator.text)

/-- Writes operators one after another. -/
def emits (path : Path) (ops : List Operator) : Path := ops.foldl emit path

/-- What a path has come to: its first failure, if any, and its sink. -/
def outcome (path : Path) : Option WriteError × Sink := (path.fault, path.sink)

theorem emits_append (path : Path) (ops ops' : List Operator) :
    path.emits (ops ++ ops') = (path.emits ops).emits ops' := List.foldl_append

/-! ### Whether a path is open -/

theorem emit_opened (path : Path) (isOpen : Bool) (op : Operator) :
    ({ path with isOpen } : Path).emit op = { path.emit op with isOpen } := by
  rcases path with ⟨sink, _ | error, lines, _⟩
  · unfold emit
    dsimp only
    rcases sink.write (op.text ++ "\n") with ⟨_ | error, sink'⟩ <;> rfl
  · rfl

theorem emits_opened (path : Path) (isOpen : Bool) (ops : List Operator) :
    ({ path with isOpen } : Path).emits ops = { path.emits ops with isOpen } := by
  induction ops generalizing path with
  | nil => rfl
  | cons op ops ih =>
    have hfirst := path.emit_opened isOpen op
    unfold emits at ih ⊢
    rw [List.foldl_cons, List.foldl_cons, hfirst, ih]

/-! ### Motions and calls -/

theorem ensureOpen_eq (path : Path) (p : Point α) :
    path.ensureOpen p = { path.emits (opening path.isOpen p) with isOpen := true } := by
  rcases path with ⟨sink, fault, lines, _ | _⟩
  · exact emit_opened ⟨sink, fault, lines, false⟩ true _
  · rfl

/-- A motion writes its operators, whatever becomes of them on the sink. -/
theorem mark_eq (path : Path) (m : Motion α) :
    path.mark m =
      { path.emits (operators path.isOpen m) with isOpen := opened path.isOpen m } := by
  have hopen (p : Point α) (op : Operator) : (path.ensureOpen p).emit op =
      { path.emits (opening path.isOpen p ++ [op]) with isOpen := true } := by
    rw [ensureOpen_eq, emit_opened, emits_append]
    rfl
  have hsame (op : Operator) : path.emit op = { path.emits [op] with isOpen := path.isOpen } :=
    path.emit_opened path.isOpen op
  cases m with
  | drawn source target => exact hopen source _
  | moved source target => exact hopen source _
  | saved position => exact hopen position _
  | restored position => exact hsame _
  | placed pose =>
    rcases path with ⟨sink, fault, lines, _ | _⟩
    · exact ensureOpen_eq ⟨sink, fault, lines, false⟩ pose.position
    · exact hsame _

theorem call_eq (t : Turtle Path α) (c : Call α) :
    (t.call c).medium =
      { t.medium.emits (callOperators t.medium.isOpen t.pen c) with
        isOpen := callOpened t.medium.isOpen t.pen c } := by
  rw [t.medium_call c, callOperators, callOpened]
  cases t.pen.seen? c with
  | none => rfl
  | some m => exact t.medium.mark_eq m

theorem calls_eq (t : Turtle Path α) (cs : List (Call α)) :
    (t.calls cs).medium =
      { t.medium.emits (callsOperators t.medium.isOpen t.pen cs) with
        isOpen := callsOpened t.medium.isOpen t.pen cs } := by
  induction cs generalizing t with
  | nil => rfl
  | cons c cs ih =>
    have htail := ih (t.call c)
    rw [call_eq, t.pen_call c, emits_opened, ← emits_append] at htail
    exact htail

/-! ### Failures and sinks -/

theorem outcome_emit (path : Path) (op : Operator) :
    (path.emit op).outcome = writeNext path.outcome (op.text ++ "\n") := by
  rcases path with ⟨sink, _ | error, lines, isOpen⟩
  · unfold emit outcome writeNext
    dsimp only
    rcases sink.write (op.text ++ "\n") with ⟨_ | error, sink'⟩ <;> rfl
  · rfl

/-- After a failure nothing more is written, so lines one after another come to one text. -/
theorem outcome_emits (path : Path) (ops : List Operator) :
    (path.emits ops).outcome = writeNext path.outcome (unlines (ops.map Operator.text)) := by
  induction ops generalizing path with
  | nil => exact (writeNext_empty path.outcome).symm
  | cons op ops ih =>
    rw [List.map_cons, unlines_cons, writeNext_append, ← outcome_emit]
    exact ih (path.emit op)

theorem finish_eq (path : Path) :
    path.finish =
      let (failure, sink) := (path.emits (closing path.isOpen)).outcome
      (failure <|> sink.flush, sink) := by
  have hclose : path.close = path.emits (closing path.isOpen) := by
    unfold close closing
    cases path.isOpen <;> rfl
  rw [finish, hclose]
  rcases path.emits (closing path.isOpen) with ⟨sink, _ | error, lines, isOpen⟩ <;> rfl

/-- What a fresh path comes to is what its whole text comes to. -/
theorem finish_calls_eq (t : Turtle Path α) (sink : Sink) (ht : t.medium = { sink })
    (cs : List (Call α)) :
    (t.calls cs).medium.finish =
      let (failure, sink) := sink.write (callsText t.pen cs)
      (failure <|> sink.flush, sink) := by
  have hcalls := calls_eq t cs
  rw [ht] at hcalls
  have htext := ({ sink } : Path).outcome_emits
    (callsOperators false t.pen cs ++ closing (callsOpened false t.pen cs))
  rw [finish_eq, hcalls, emits_opened, ← emits_append]
  exact congrArg (fun (failure, sink) ↦ (failure <|> Sink.flush sink, sink)) htext

end Path

end LSystem.PostScript
