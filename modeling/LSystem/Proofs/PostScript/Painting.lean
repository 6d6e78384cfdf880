import LSystem.Proofs.PostScript.Emission
import LSystem.Proofs.Turtle.Calls

/-!
# What is painted

The lines of a path paint the strokes of its turtle.  The invariant: while a path is open, the
current point is the position of the pen as it is written; before that nothing is remembered and
nothing is pending.  What has been painted, together with what is pending, is what has been drawn so
far.
-/

namespace LSystem.PostScript

/-! ## Operators on the machine -/

namespace Machine

variable {m m' : Machine}

def perform (m : Machine) (op : Operator) : Option Machine := op.tokens.foldlM exec m

def performs (m : Machine) (ops : List Operator) : Option Machine := ops.foldlM perform m

/-- What has been drawn, painted or not. -/
def drawn (m : Machine) : List Stroke := m.painted ++ m.pending

theorem performs_append (m : Machine) (ops ops' : List Operator) :
    m.performs (ops ++ ops') = (m.performs ops).bind (·.performs ops') := List.foldlM_append

theorem readLine_text (m : Machine) (op : Operator) : m.readLine op.text = m.perform op := by
  rw [op.text_eq, readLine_spaced m op.wellFormed_tokens op.tokens_ne_nil]
  rfl

-- Whatever an operator line pushes, it also takes.
theorem operands_perform {op : Operator} (h : m.perform op = some m') :
    m'.operands = m.operands := by
  rcases m with ⟨operands, current, pending, painted⟩
  cases op <;> cases current <;> cases h <;> rfl

theorem operands_read {ls : List String} (hls : ∀ l ∈ ls, l = "" ∨ ∃ op : Operator, l = op.text)
    (h : m.read ls = some m') : m'.operands = m.operands := by
  induction ls generalizing m with
  | nil =>
    cases h
    rfl
  | cons l ls ih =>
    rcases Option.bind_eq_some_iff.mp h with ⟨m₁, hline, hrest⟩
    have htail : m'.operands = m₁.operands :=
      ih (fun k hk => hls k (List.mem_cons_of_mem l hk)) hrest
    rw [htail]
    rcases hls l List.mem_cons_self with rfl | ⟨op, rfl⟩
    · cases hline
      rfl
    · exact operands_perform ((m.readLine_text op).symm.trans hline)

end Machine

theorem lines_text (ops : List Operator) :
    lines (unlines (ops.map Operator.text)) = ops.map Operator.text ++ [""] := by
  apply lines_unlines
  intro l hl
  rcases List.mem_map.mp hl with ⟨op, -, rfl⟩
  exact op.newline_not_mem_text

theorem Machine.read_text (m : Machine) (ops : List Operator) :
    m.read (lines (unlines (ops.map Operator.text))) = m.performs ops := by
  have hops : m.read (ops.map Operator.text) = m.performs ops := by
    unfold read performs
    rw [List.foldlM_map]
    simp only [readLine_text]
  have hend (m : Machine) : m.read [""] = some m := rfl
  rw [lines_text, read_append, hops]
  simp [hend]

/-! ## The invariant -/

variable {α : Type} [Scalar α]

/-- A point as it is written. -/
def Place.ofPoint (p : Point α) : Place :=
  ⟨(Coordinates.ofPoint p).x.text, (Coordinates.ofPoint p).y.text⟩

/-- A line as it is written. -/
def Stroke.ofSegment (s : Segment α) : Stroke := ⟨.ofPoint s.source, .ofPoint s.target⟩

/-- The machine is where the pen is, as it is written.  Until a path is open, all that is known is
that nothing is pending and no pose is remembered. -/
structure Tracks (m : Machine) (isOpen : Bool) (p : Pen α) : Prop where
  operands : m.operands = []
  current : isOpen = true → m.current = some (.ofPoint p.position)
  pending : isOpen = false → m.pending = []
  stack : isOpen = false → p.stack = []

/-- Some operators draw some strokes, and leave the machine where a pen is. -/
structure Draws (m : Machine) (ops : List Operator) (strokes : List Stroke) (isOpen : Bool)
    (p : Pen α) (m' : Machine) : Prop where
  performs : m.performs ops = some m'
  tracks : Tracks m' isOpen p
  drawn : m'.drawn = m.drawn ++ strokes

theorem Draws.append {m m' m'' : Machine} {ops ops' : List Operator}
    {strokes strokes' : List Stroke} {isOpen isOpen' : Bool} {p p' : Pen α}
    (h : Draws m ops strokes isOpen p m')
    (h' : Draws m' ops' strokes' isOpen' p' m'') :
    Draws m (ops ++ ops') (strokes ++ strokes') isOpen' p' m'' where
  performs := by
    rw [Machine.performs_append, h.performs]
    exact h'.performs
  tracks := h'.tracks
  drawn := by rw [h'.drawn, h.drawn, List.append_assoc]

namespace Tracks

variable {m : Machine} {isOpen : Bool} {p q : Pen α}

theorem draws_nil (h : Tracks m isOpen p) : Draws m [] [] isOpen p m :=
  ⟨rfl, h, (List.append_nil _).symm⟩

-- Turns and units do not show on the path.
theorem of_stays (h : Tracks m isOpen p) (hposition : q.position = p.position)
    (hstack : q.stack = p.stack) : Tracks m isOpen q := by
  refine ⟨h.operands, ?_, h.pending, ?_⟩
  · rw [hposition]
    exact h.current
  · rw [hstack]
    exact h.stack

-- On an open path only the position counts.
theorem of_position (h : Tracks m true p) (hq : q.position = p.position) : Tracks m true q := by
  refine ⟨h.operands, fun _ => ?_, nofun, nofun⟩
  rw [hq]
  exact h.current rfl

theorem draws_opening (h : Tracks m isOpen p) :
    ∃ m', Draws m (opening isOpen p.position) [] true p m' := by
  cases isOpen with
  | true => exact ⟨m, h.draws_nil⟩
  | false =>
    refine ⟨{ m with current := some (.ofPoint p.position), pending := [] }, rfl, ?_, ?_⟩
    · exact ⟨h.operands, fun _ => rfl, nofun, nofun⟩
    · simp only [Machine.drawn, h.pending rfl, List.append_nil]

theorem draws_lineTo (h : Tracks m true p) (q : Pen α) :
    ∃ m', Draws m [.lineTo (.ofPoint q.position)]
      [⟨.ofPoint p.position, .ofPoint q.position⟩] true q m' := by
  have hcurrent := h.current rfl
  rcases m with ⟨operands, current, pending, painted⟩
  cases hcurrent
  refine ⟨_, rfl, ⟨h.operands, fun _ => rfl, nofun, nofun⟩, ?_⟩
  exact (List.append_assoc painted pending _).symm

theorem draws_moveTo (h : Tracks m true p) (q : Pen α) :
    ∃ m', Draws m [.moveTo (.ofPoint q.position)] [] true q m' :=
  ⟨_, rfl, ⟨h.operands, fun _ => rfl, nofun, nofun⟩, (List.append_nil _).symm⟩

theorem draws_breakPath (h : Tracks m true p) :
    ∃ m', Draws m [.breakPath] [] true p m' := by
  have hcurrent := h.current rfl
  rcases m with ⟨operands, current, pending, painted⟩
  cases hcurrent
  exact ⟨_, rfl, ⟨h.operands, fun _ => rfl, nofun, nofun⟩, rfl⟩

theorem draws_restart (h : Tracks m true p) (q : Pen α) :
    ∃ m', Draws m [.restart (.ofPoint q.position)] [] true q m' :=
  ⟨_, rfl, ⟨h.operands, fun _ => rfl, nofun, nofun⟩, rfl⟩

-- One case for each call; the ones that need a path open it first, where the pen still is.
theorem draws_call (h : Tracks m isOpen p) (c : Call α) :
    ∃ m', Draws m (callOperators isOpen p c) ((p.stroke? c).toList.map Stroke.ofSegment)
      (callOpened isOpen p c) (p.call c) m' := by
  cases c with
  | setUnits step angle =>
    have hset : Tracks m isOpen (p.setUnits step angle) := h.of_stays rfl rfl
    exact ⟨m, hset.draws_nil⟩
  | place pose =>
    cases isOpen with
    | true => exact h.draws_restart (p.place pose)
    -- The first path is opened where the pen is put, not where it was.
    | false =>
      have hplaced : Tracks m false (p.place pose) := ⟨h.operands, nofun, h.pending, fun _ => rfl⟩
      exact hplaced.draws_opening
  | perform a =>
    cases a with
    | draw =>
      rcases h.draws_opening with ⟨m₁, h₁⟩
      rcases h₁.tracks.draws_lineTo p.advance with ⟨m₂, h₂⟩
      exact ⟨m₂, h₁.append h₂⟩
    | move =>
      rcases h.draws_opening with ⟨m₁, h₁⟩
      rcases h₁.tracks.draws_moveTo p.advance with ⟨m₂, h₂⟩
      exact ⟨m₂, h₁.append h₂⟩
    | turnLeft =>
      have hturned : Tracks m isOpen (p.turn 1.0) := h.of_stays rfl rfl
      exact ⟨m, hturned.draws_nil⟩
    | turnRight =>
      have hturned : Tracks m isOpen (p.turn (-1.0)) := h.of_stays rfl rfl
      exact ⟨m, hturned.draws_nil⟩
    | push =>
      rcases h.draws_opening with ⟨m₁, h₁⟩
      rcases (h₁.tracks.of_position (q := p.save) rfl).draws_breakPath with ⟨m₂, h₂⟩
      exact ⟨m₂, h₁.append h₂⟩
    | pop =>
      rcases p with ⟨position, heading, step, angle, stack⟩
      cases stack with
      | nil => exact ⟨m, h.draws_nil⟩
      | cons pose rest =>
        cases isOpen with
        | true => exact h.draws_restart _
        -- A pose is only remembered on an open path.
        | false => exact absurd (h.stack rfl) (List.cons_ne_nil pose rest)
    | stay => exact ⟨m, h.draws_nil⟩

theorem draws_calls (h : Tracks m isOpen p) (cs : List (Call α)) :
    ∃ m', Draws m (callsOperators isOpen p cs) ((p.strokes cs).map Stroke.ofSegment)
      (callsOpened isOpen p cs) (p.calls cs) m' := by
  induction cs generalizing m isOpen p with
  | nil => exact ⟨m, h.draws_nil⟩
  | cons c cs ih =>
    rcases h.draws_call c with ⟨m₁, h₁⟩
    rcases ih h₁.tracks with ⟨m₂, h₂⟩
    rw [Pen.strokes, List.map_append]
    exact ⟨m₂, h₁.append h₂⟩

theorem draws_closing (h : Tracks m isOpen p) :
    ∃ m', m.performs (Path.closing isOpen) = some m' ∧ m'.painted = m.drawn ∧ m'.pending = [] := by
  cases isOpen with
  | true => exact ⟨_, rfl, rfl, rfl⟩
  | false =>
    refine ⟨m, rfl, ?_, h.pending rfl⟩
    rw [Machine.drawn, h.pending rfl, List.append_nil]

end Tracks

/-! ## The text -/

/-- Reading a text paints some lines in their order and nothing else.  The machine never stops, no
line leaves an operand, and nothing is pending in the end. -/
structure Paints (text : String) (segments : List (Segment α)) : Prop where
  painted : ∃ m, Machine.read {} (lines text) = some m ∧
    m.painted = segments.map Stroke.ofSegment ∧ m.pending = []
  operands : ∀ ls, ls <+: lines text → ∃ m, Machine.read {} ls = some m ∧ m.operands = []

theorem paints_text {ops : List Operator} {m : Machine} {segments : List (Segment α)}
    (h : Machine.performs {} ops = some m) (hpainted : m.painted = segments.map Stroke.ofSegment)
    (hpending : m.pending = []) : Paints (unlines (ops.map Operator.text)) segments where
  painted := ⟨m, (Machine.read_text {} ops).trans h, hpainted, hpending⟩
  operands := by
    rintro ls ⟨rest, hsplit⟩
    -- The whole text can be read, so each of its beginnings can.
    have hread : ((Machine.read {} ls).bind (·.read rest)) = some m := by
      rw [← Machine.read_append, hsplit, Machine.read_text, h]
    rcases Option.bind_eq_some_iff.mp hread with ⟨m₁, hls, -⟩
    have hlines : ∀ l ∈ ls, l = "" ∨ ∃ op : Operator, l = op.text := by
      intro l hl
      have hmem : l ∈ ops.map Operator.text ++ [""] := by
        rw [← lines_text, ← hsplit]
        exact List.mem_append_left rest hl
      rcases List.mem_append.mp hmem with hop | hend
      · rcases List.mem_map.mp hop with ⟨op, -, rfl⟩
        exact Or.inr ⟨op, rfl⟩
      · exact Or.inl (List.mem_singleton.mp hend)
    exact ⟨m₁, hls, Machine.operands_read hlines hls⟩

/-- The text of a path paints the strokes of its turtle. -/
theorem paints_callsText {p : Pen α} (hstack : p.stack = []) (cs : List (Call α)) :
    Paints (Path.callsText p cs) (p.strokes cs) := by
  have hfresh : Tracks {} false p := ⟨rfl, nofun, fun _ => rfl, fun _ => hstack⟩
  rcases hfresh.draws_calls cs with ⟨m, hdraws⟩
  rcases hdraws.tracks.draws_closing with ⟨m', hclose, hpainted, hpending⟩
  have hperforms : Machine.performs {} (callsOperators false p cs ++
      Path.closing (callsOpened false p cs)) = some m' := by
    rw [Machine.performs_append, hdraws.performs]
    exact hclose
  exact paints_text hperforms (hpainted.trans hdraws.drawn) hpending

/-- What a turtle writes on a fresh path paints its strokes. -/
theorem finish_calls (taken : ByteArray) (t : Turtle Path α) (ht : t.medium = { sink := { taken } })
    (hstack : t.pen.stack = []) (cs : List (Call α)) :
    ∃ text : String, (t.calls cs).medium.finish = (none, { taken := taken ++ text.toUTF8 }) ∧
      Paints text (t.pen.strokes cs) := by
  refine ⟨Path.callsText t.pen cs, ?_, paints_callsText hstack cs⟩
  rw [Path.finish_calls_eq t { taken } ht cs]
  rfl

end LSystem.PostScript
