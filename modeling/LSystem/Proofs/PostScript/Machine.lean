import LSystem.PostScript.Page
import LSystem.PostScript.Path
import LSystem.Proofs.Number.Fixed

/-!
# What path operators mean

A machine that reads a text line by line and word by word.  A numeral becomes an operand, taken as
it is written; the operators build a pending path, which `stroke` paints.  Whatever the machine does
not understand, and whatever lacks an operand or a current point, stops it.
-/

namespace LSystem.PostScript

/-! ## The machine -/

/-- A place on the page, by the numerals that are written for it. -/
structure Place where
  x : String
  y : String
  deriving DecidableEq, Repr

structure Stroke where
  source : Place
  target : Place
  deriving DecidableEq, Repr

inductive Token where
  | numeral (text : String)
  | newpath
  | moveto
  | lineto
  | currentpoint
  | stroke
  deriving DecidableEq, Repr

/-- The operands, the last one first, the current point, and the lines pending and painted. -/
structure Machine where
  operands : List String := []
  current : Option Place := none
  pending : List Stroke := []
  painted : List Stroke := []
  deriving DecidableEq, Repr

namespace Machine

/-- Carries out a token, if the operands and the current point that it needs are there. -/
def exec (m : Machine) : Token → Option Machine
  | .numeral n => some { m with operands := n :: m.operands }
  | .newpath => some { m with current := none, pending := [] }
  | .moveto =>
    match m.operands with
    | y :: x :: operands => some { m with operands, current := some ⟨x, y⟩ }
    | _ => none
  | .lineto =>
    match m.operands, m.current with
    | y :: x :: operands, some p =>
      some { m with
        operands, current := some ⟨x, y⟩, pending := m.pending ++ [⟨p, ⟨x, y⟩⟩] }
    | _, _ => none
  | .currentpoint => m.current.map fun p ↦ { m with operands := p.y :: p.x :: m.operands }
  | .stroke => some { m with current := none, pending := [], painted := m.painted ++ m.pending }

end Machine

/-! ## Reading -/

/-- The words that coordinates are written as: digits with signs and points, or the name of a value that
is no finite number.  The page language has numbers of its own, written in more ways than these and with
none of the names. -/
def isNumeral (w : String) : Bool :=
  ["NaN", "inf", "-inf"].contains w ||
    w ≠ "" && w.toList.all fun c ↦ c.isDigit || c = '.' || c = '-'

def Token.word : Token → String
  | numeral n => n
  | newpath => "newpath"
  | moveto => "moveto"
  | lineto => "lineto"
  | currentpoint => "currentpoint"
  | stroke => "stroke"

def keywords : List Token := [.newpath, .moveto, .lineto, .currentpoint, .stroke]

/-- The token that a word stands for. -/
def token? (w : String) : Option Token :=
  if isNumeral w then some (.numeral w) else keywords.find? (·.word = w)

def words (line : String) : List String :=
  ((line.toList.splitOn ' ').map String.ofList).filter (· ≠ "")

def lines (text : String) : List String := (text.toList.splitOn '\n').map String.ofList

namespace Machine

def readWord (m : Machine) (w : String) : Option Machine := (token? w).bind m.exec

def readLine (m : Machine) (line : String) : Option Machine := (words line).foldlM readWord m

def read (m : Machine) (ls : List String) : Option Machine := ls.foldlM readLine m

theorem read_append (m : Machine) (ls ms : List String) :
    m.read (ls ++ ms) = (m.read ls).bind (·.read ms) := List.foldlM_append

end Machine

example : Machine.read {} (lines "newpath 0 0 moveto\n0 1 lineto\nstroke\n") =
    some { painted := [⟨⟨"0", "0"⟩, ⟨"0", "1"⟩⟩] } := by decide +kernel

-- There is no current point after a stroke.
example : Machine.read {} (lines "newpath 0 0 moveto stroke\n0 1 lineto\n") = none := by
  decide +kernel

/-! ## Words that are read back -/

theorem isNumeral_text {places : Nat} (x : Number.Fixed places) : isNumeral x.text = true := by
  cases x with
  | nan => exact (by decide : isNumeral "NaN" = true)
  | infinite negative =>
    show isNumeral (Number.signText negative ++ "inf") = true
    cases negative <;> decide
  | finite negative units =>
    have hne : Number.Fixed.unitsText places units ≠ "" := Number.Fixed.unitsText_ne_empty units
    have hsign : ∀ c ∈ (Number.signText negative).toList, c = '-' := by
      intro c hc
      cases negative with
      | true => exact List.mem_singleton.mp hc
      | false => exact absurd hc List.not_mem_nil
    have hchars : ∀ c ∈ (Number.signText negative ++ Number.Fixed.unitsText places units).toList,
        (c.isDigit || c = '.' || c = '-') = true := by
      intro c hc
      rw [String.toList_append, List.mem_append] at hc
      rcases hc with hc | hc
      · simp [hsign c hc]
      · rcases Number.Fixed.isDigit_or_point hc with hdigit | hpoint
        · simp [hdigit]
        · simp [hpoint]
    show isNumeral (Number.signText negative ++ Number.Fixed.unitsText places units) = true
    unfold isNumeral
    rw [List.all_eq_true.mpr hchars]
    simp [hne]

/-- A token whose word is read as that token. -/
def Token.WellFormed : Token → Prop
  | numeral n => isNumeral n = true
  | _ => True

theorem token?_word {t : Token} (ht : t.WellFormed) : token? t.word = some t := by
  cases t with
  | numeral n => exact if_pos ht
  | _ => decide

theorem word_ne_empty {t : Token} (ht : t.WellFormed) : t.word ≠ "" := by
  cases t with
  | numeral n =>
    rintro hempty
    rw [Token.WellFormed, show n = "" from hempty] at ht
    exact absurd ht (by decide)
  | _ => decide

/-- Spaces, line ends and what begins a comment are in no numeral. -/
theorem not_mem_numeral {w : String} (hw : isNumeral w = true) {c : Char}
    (hc : c = ' ' ∨ c = '\n' ∨ c = '%') : c ∉ w.toList := by
  intro hmem
  unfold isNumeral at hw
  rcases (Bool.or_eq_true _ _).mp hw with hname | hdigits
  · have hn : w = "NaN" ∨ w = "inf" ∨ w = "-inf" := by simpa using hname
    rcases hn with rfl | rfl | rfl <;> rcases hc with rfl | rfl | rfl <;>
      exact absurd hmem (by decide)
  · have hall := List.all_eq_true.mp ((Bool.and_eq_true _ _).mp hdigits).2 c hmem
    rcases hc with rfl | rfl | rfl <;> exact absurd hall (by decide)

theorem not_mem_word {t : Token} (ht : t.WellFormed) {c : Char} (hc : c = ' ' ∨ c = '\n') :
    c ∉ t.word.toList := by
  cases t with
  | numeral n => exact not_mem_numeral ht (hc.imp_right Or.inl)
  | _ => rcases hc with rfl | rfl <;> decide

/-- Words without spaces in them are found again. -/
theorem words_spaced_of {ws : List String} (hws : ∀ w ∈ ws, w ≠ "" ∧ ' ' ∉ w.toList) (hne : ws ≠ []) :
    words (spaced ws) = ws := by
  have hlists : ws.map String.toList ≠ [] := by simpa using hne
  have hspace : ∀ l ∈ ws.map String.toList, ' ' ∉ l := by
    intro l hl
    rcases List.mem_map.mp hl with ⟨w, hw, rfl⟩
    exact (hws w hw).2
  have hempty : ∀ w ∈ ws, decide (w ≠ "") = true := fun w hw => decide_eq_true (hws w hw).1
  have hofList : (ws.map String.toList).map String.ofList = ws := by
    simp [Function.comp_def]
  have hsep : " ".toList = [' '] := rfl
  unfold words spaced
  rw [String.toList_intercalate, hsep, List.splitOn_intercalate ' ' hspace hlists, hofList]
  exact List.filter_eq_self.mpr hempty

theorem words_spaced {ts : List Token} (hts : ∀ t ∈ ts, t.WellFormed) (hne : ts ≠ []) :
    words (spaced (ts.map Token.word)) = ts.map Token.word := by
  refine words_spaced_of (fun w hw => ?_) (by simpa using hne)
  rcases List.mem_map.mp hw with ⟨t, ht, rfl⟩
  exact ⟨word_ne_empty (hts t ht), not_mem_word (hts t ht) (Or.inl rfl)⟩

theorem newline_not_mem_spaced {ws : List String} (hws : ∀ w ∈ ws, '\n' ∉ w.toList) :
    '\n' ∉ (spaced ws).toList := by
  unfold spaced
  induction ws with
  | nil => exact List.not_mem_nil
  | cons w ws ih =>
    have hw : '\n' ∉ w.toList := hws w List.mem_cons_self
    have hrest := ih fun v hv => hws v (List.mem_cons_of_mem w hv)
    cases ws with
    | nil =>
      rw [String.intercalate_singleton]
      exact hw
    | cons v ws =>
      have hspace : '\n' ∉ " ".toList := by decide
      rw [String.intercalate_cons_cons]
      simp only [String.toList_append, List.mem_append, not_or]
      exact ⟨⟨hw, hspace⟩, hrest⟩

theorem Machine.readLine_spaced (m : Machine) {ts : List Token} (hts : ∀ t ∈ ts, t.WellFormed)
    (hne : ts ≠ []) : m.readLine (spaced (ts.map Token.word)) = ts.foldlM exec m := by
  unfold readLine
  rw [words_spaced hts hne]
  clear hne
  induction ts generalizing m with
  | nil => rfl
  | cons t ts ih =>
    have hword : m.readWord t.word = m.exec t := by
      unfold readWord
      rw [token?_word (hts t List.mem_cons_self)]
      rfl
    rw [List.map_cons, List.foldlM_cons, List.foldlM_cons, hword]
    have htail := fun m ↦ ih m fun t ht => hts t (List.mem_cons_of_mem _ ht)
    simp only [htail]

-- Nothing stands after the last line end, which is read as one more line without words.
theorem lines_unlines {ls : List String} (hls : ∀ l ∈ ls, '\n' ∉ l.toList) :
    lines (unlines ls) = ls ++ [""] := by
  induction ls with
  | nil => decide
  | cons l ls ih =>
    have hl : '\n' ∉ l.toList := hls l List.mem_cons_self
    have hsplit : (unlines (l :: ls)).toList = l.toList ++ '\n' :: (unlines ls).toList := by
      simp [unlines, String.toList_join]
    have hrest : (List.splitOn '\n' (unlines ls).toList).map String.ofList = ls ++ [""] :=
      ih fun l hl => hls l (List.mem_cons_of_mem _ hl)
    unfold lines
    rw [hsplit, List.splitOn_append_cons_self_of_not_mem hl, List.map_cons, hrest,
      String.ofList_toList]
    rfl

end LSystem.PostScript
