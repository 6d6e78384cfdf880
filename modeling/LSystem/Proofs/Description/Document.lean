import LSystem.Description.Load
import LSystem.Proofs.Json.Numeral
import LSystem.Proofs.Json.Range
import LSystem.Proofs.Json.Record

/-!
# Descriptions read back

The document of a description is read back as that description, with every section that is absent
still absent, and every section that is empty still there (`document_reads_back`).  This takes a seed
of 64 bits and parameters that are numbers, which is what every description that has been read has.
-/

namespace LSystem

open Json (Value Reader Starts Reads ReadsBack Yields)
open Json.Reader
open Json.Record (Fills)
open Number (twoTo)
open Parameters (entry)

/-! ## Sections that may be absent -/

section Sections

variable {β σ : Type} {r : Reader β} {f : β → Value} {value : Option β}
  {fields : List (Json.Record.Field σ)} {name : String} {presence : Json.Presence}
  {g : σ → Option β → σ} {s : σ}

theorem reads_ofOption (h : ∀ v ∈ value, Starts (f v).compact ∧ Reads r (f v).compact v) :
    Reads (nullable r) (Value.ofOption f value).compact value := by
  cases value with
  | none => exact reads_nullable_null r
  | some v =>
    obtain ⟨hstarts, hreads⟩ := h v rfl
    exact reads_nullable hstarts hreads

/-- A section that is written as null if it is absent. -/
theorem fills_section
    (found : fields.find? (·.name = name) =
      some ⟨name, presence, fun s => do return g s (← nullable r)⟩)
    (h : ∀ v ∈ value, Starts (f v).compact ∧ Reads r (f v).compact v) :
    Fills fields s [(name, Value.ofOption f value)] (g s value) := by
  have hreads : Reads (do return g s (← nullable r)) (Value.ofOption f value).compact (g s value) :=
    fun rest hrest => run_bind_of_ok (reads_ofOption h rest hrest)
  exact .cons found hreads (.nil _)

/-- A section that is left out if it is absent. -/
theorem fills_entry
    (found : fields.find? (·.name = name) =
      some ⟨name, presence, fun s => do return g s (← nullable r)⟩)
    (habsent : g s none = s) (h : ∀ v ∈ value, Starts (f v).compact ∧ Reads r (f v).compact v) :
    Fills fields s (entry name f value) (g s value) := by
  cases value with
  | none => exact habsent.symm ▸ .nil s
  | some v => exact fills_section found h

theorem keys_entry_sublist (name : String) (f : β → Value) (value : Option β) :
    ((entry name f value).map Prod.fst).Sublist [name] := by
  cases value with
  | none => exact List.nil_sublist _
  | some v => exact List.Sublist.refl _

end Sections

/-! ## Parameters -/

namespace Parameters

variable {p : Parameters}

def numbers (p : Parameters) : List Float :=
  p.step.toList ++ p.angle.toList ++
    p.start.elim [] fun (x, y, heading) => [x, y, heading]

theorem forall_numbers {P : Float → Prop} :
    (∀ x ∈ p.numbers, P x) ↔
      (∀ x ∈ p.step, P x) ∧ (∀ x ∈ p.angle, P x) ∧
        ∀ start ∈ p.start, P start.1 ∧ P start.2.1 ∧ P start.2.2 := by
  rcases p with ⟨step, angle, start⟩
  cases start with
  | none => simp [numbers, or_imp, forall_and]
  | some xyz => simp [numbers, or_imp, forall_and]

theorem starts_toJson (p : Parameters) : Starts p.toJson.compact :=
  Json.starts_bracketed ⟨'\x7b', [], rfl, by decide⟩ _ _

theorem reads_toJson (h : ∀ x ∈ p.numbers, ReadsBack x) : Reads read p.toJson.compact p := by
  obtain ⟨hstep, hangle, hstart⟩ := forall_numbers.mp h
  have hnumber {x : Float} (hx : ReadsBack x) :
      Starts (Value.number x).compact ∧ Reads float (Value.number x).compact x :=
    ⟨hx.starts, hx.reads⟩
  have hfirst : Fills fields {} (entry "step" .number p.step) { step := p.step } :=
    fills_entry (g := fun (p : Parameters) step => { p with step }) rfl rfl
      fun x hx => hnumber (hstep x hx)
  have hsecond : Fills fields { step := p.step } (entry "angle" .number p.angle)
      { step := p.step, angle := p.angle } :=
    fills_entry (g := fun (p : Parameters) angle => { p with angle }) rfl rfl
      fun x hx => hnumber (hangle x hx)
  have hthird : Fills fields { step := p.step, angle := p.angle }
      (entry "start" (fun (x, y, heading) => .array [.number x, .number y, .number heading])
        p.start) p := by
    apply fills_entry (g := fun (p : Parameters) start => { p with start }) rfl rfl
    rintro ⟨x, y, heading⟩ hxyz
    obtain ⟨hx, hy, hheading⟩ := hstart _ hxyz
    refine ⟨Json.starts_bracketed ⟨'[', [], rfl, by decide⟩ _ _, ?_⟩
    exact reads_triple (hnumber hx) (hnumber hy) (hnumber hheading)
  apply Json.Record.reads_object ((hfirst.append hsecond).append hthird)
  · -- The keys are those of the fields, less some that are left out.
    have hkeys : (["step"] ++ ["angle"] ++ ["start"]).Nodup := by
      decide
    rw [List.map_append, List.map_append]
    refine List.Nodup.sublist ?_ hkeys
    exact ((keys_entry_sublist _ _ _).append (keys_entry_sublist _ _ _)).append
      (keys_entry_sublist _ _ _)
  · simp [fields]

theorem yields_read : Yields read fun p => ∀ x ∈ p.numbers, x.isFinite = true := by
  have hfloat := yields_nullable yields_float
  have htriple := yields_nullable (yields_triple yields_float)
  apply Json.Record.yields_read
  · intro field hfield p hp
    obtain ⟨hstep, hangle, hstart⟩ := forall_numbers.mp hp
    simp only [fields, List.mem_cons, List.not_mem_nil, or_false] at hfield
    rcases hfield with rfl | rfl | rfl
    · refine hfloat.bind fun step hstep => Json.yields_pure ?_
      exact forall_numbers.mpr ⟨hstep, hangle, hstart⟩
    · refine hfloat.bind fun angle hangle => Json.yields_pure ?_
      exact forall_numbers.mpr ⟨hstep, hangle, hstart⟩
    · refine htriple.bind fun start hstart => Json.yields_pure ?_
      exact forall_numbers.mpr ⟨hstep, hangle, hstart⟩
  · simp [numbers]

end Parameters

/-! ## Descriptions -/

namespace Description

variable {d : Description}

def numbers (d : Description) : List Float := d.parameters.elim [] Parameters.numbers

/-- What can be written as a document: a seed that 64 bits hold and parameters that are numbers. -/
structure Representable (d : Description) : Prop where
  seed : ∀ i ∈ d.seed, -(twoTo 63 : Int) ≤ i ∧ i ≤ twoTo 63 - 1
  numbers : ∀ x ∈ d.numbers, x.isFinite = true

theorem compact_entriesJson {β : Type} (f : β → Value) (es : List (String × β)) :
    (entriesJson f es).compact =
      Value.bracketed "\x7b" "\x7d"
        (es.map fun e => Json.written e.1 ++ ":" ++ (f e.2).compact) := by
  rw [entriesJson, Value.compact, Json.compactEntries_eq_map, List.map_map]
  rfl

theorem reads_entriesJson {β : Type} {r : Reader β} {f : β → Value}
    (h : ∀ v, Reads r (f v).compact v) (es : List (String × β)) :
    Starts (entriesJson f es).compact ∧ Reads (entries r) (entriesJson f es).compact es := by
  rw [compact_entriesJson]
  refine ⟨Json.starts_bracketed ⟨'\x7b', [], rfl, by decide⟩ _ _, ?_⟩
  exact reads_entries (fun v => (f v).compact) es fun e _ => h e.2

theorem reads_words (ws : List String) :
    Reads (list text) (Value.array (ws.map .string)).compact ws := by
  rw [Value.compact, Json.compactItems_eq_map, List.map_map]
  exact reads_list Json.written ws fun w _ => ⟨Json.starts_written w, reads_text w⟩

theorem reads_toJson (hd : d.Representable) (h : ∀ x ∈ d.numbers, ReadsBack x) :
    Reads read d.toJson.compact d := by
  -- The entries fill the description from nothing, one section after another.
  have hseed : Fills fields {} (entry "seed" .integer d.seed) { seed := d.seed } := by
    apply fills_entry (g := fun (d : Description) seed => { d with seed }) rfl rfl
    intro i hi
    have hrange := hd.seed i hi
    -- A reader keeps integers up to the largest one without a sign, which is larger.
    have hbits : -(twoTo 63 : Int) ≤ i ∧ i ≤ Json.Numeral.maxSignificand := by
      have hmax : (twoTo 63 : Int) - 1 ≤ Json.Numeral.maxSignificand := by
        decide
      exact ⟨hrange.1, Int.le_trans hrange.2 hmax⟩
    exact ⟨Json.starts_toString i, reads_integer hrange hbits⟩
  have hparameters : Fills fields { seed := d.seed }
      (entry "parameters" Parameters.toJson d.parameters)
      { seed := d.seed, parameters := d.parameters } := by
    apply fills_entry (g := fun (d : Description) parameters => { d with parameters }) rfl rfl
    intro p hp
    have hnumbers : ∀ x ∈ p.numbers, ReadsBack x := by
      rwa [numbers, Option.mem_def.mp hp] at h
    exact ⟨p.starts_toJson, Parameters.reads_toJson hnumbers⟩
  have hname (w : String) : Reads text (Value.string w).compact w := reads_text w
  have hactions : Fills fields { seed := d.seed, parameters := d.parameters }
      [("actions", .ofOption (entriesJson .string) d.actions)]
      { seed := d.seed, parameters := d.parameters, actions := d.actions } :=
    fills_section (g := fun (d : Description) actions => { d with actions }) rfl
      fun es _ => reads_entriesJson hname es
  have hinitial : Fills fields
      { seed := d.seed, parameters := d.parameters, actions := d.actions }
      [("axiom", .ofOption .string d.initial)] { d with rules := none } :=
    fills_section (g := fun (d : Description) initial => { d with initial }) rfl
      fun w _ => ⟨Json.starts_written w, hname w⟩
  have hrules : Fills fields { d with rules := none }
      [("rules", .ofOption (entriesJson fun ws => .array (ws.map .string)) d.rules)] d :=
    fills_section (g := fun (d : Description) rules => { d with rules }) rfl
      fun es _ => reads_entriesJson reads_words es
  apply Json.Record.reads_object
    ((hseed.append hparameters).append (hactions.append (hinitial.append hrules)))
  · -- Only the seed and the parameters may be left out.
    have hkeys : (["seed"] ++ ["parameters"] ++ ["actions", "axiom", "rules"]).Nodup := by
      decide
    rw [List.map_append, List.map_append]
    refine List.Nodup.sublist ?_ hkeys
    exact ((keys_entry_sublist _ _ _).append (keys_entry_sublist _ _ _)).append
      (List.Sublist.refl _)
  · simp [fields]

theorem yields_read : Yields read Representable := by
  -- Two fields are ranged over; what the others read does not matter.
  apply Json.Record.yields_read
  · intro field hfield d hd
    simp only [fields, List.mem_cons, List.not_mem_nil, or_false] at hfield
    rcases hfield with rfl | rfl | rfl | rfl | rfl
    · refine (yields_nullable (yields_integer _ _)).bind fun seed hseed => Json.yields_pure ?_
      exact ⟨hseed, hd.numbers⟩
    · refine (yields_nullable Parameters.yields_read).bind fun parameters hnumbers =>
        Json.yields_pure ?_
      cases parameters with
      | none => exact ⟨hd.seed, by simp [numbers]⟩
      | some p => exact ⟨hd.seed, hnumbers p rfl⟩
    · exact Json.yields_bind_trivial fun actions => Json.yields_pure ⟨hd.seed, hd.numbers⟩
    · exact Json.yields_bind_trivial fun initial => Json.yields_pure ⟨hd.seed, hd.numbers⟩
    · exact Json.yields_bind_trivial fun rules => Json.yields_pure ⟨hd.seed, hd.numbers⟩
  · exact ⟨by simp, by simp [numbers]⟩

theorem ofText_compact (hd : d.Representable) (h : ∀ x ∈ d.numbers, ReadsBack x) :
    ofText d.toJson.compact = .ok d := by
  have hread := reads_toJson hd h [] Json.closes_nil
  rw [List.append_nil] at hread
  change read _ = _ at hread
  rw [ofText, ofGlyphs, Reader.document, hread]
  rfl

/-- Nothing else comes out of a document, whatever its glyphs are. -/
theorem representable_of_ofGlyphs {glyphs : List Text.Glyph} (h : ofGlyphs glyphs = .ok d) :
    d.Representable := by
  unfold ofGlyphs Reader.document at h
  cases hrun : read glyphs with
  | error fault =>
    rw [hrun] at h
    nomatch h
  | ok result =>
    have hd : result.1 = d := by
      rw [hrun] at h
      change Except.mapError _ (if result.2.all Json.isBlank then _ else _) = _ at h
      split at h
      · exact Except.ok.inj h
      · nomatch h
    exact hd ▸ yields_read _ _ _ hrun

/-- A description survives being written and read, given that each of its numbers does: a double is
read from as many digits as 64 bits hold, which need not give the double that was written.  That the
seed is one of 64 bits and that the parameters are numbers holds of whatever has been read. -/
theorem document_reads_back :
    (∀ d : Description, d.Representable → (∀ x ∈ d.numbers, x.isFinite = true → ReadsBack x) →
      ofText d.toJson.compact = .ok d) ∧
    ∀ (s : String) (d : Description), ofText s = .ok d → d.Representable := by
  constructor
  · intro d hd hnumbers
    exact ofText_compact hd fun x hx => hnumbers x hx (hd.numbers x hx)
  · intro s d hread
    exact representable_of_ofGlyphs hread

/-- The least seed, some parameters and no initial word; entries without a key, with the key of
another one and with keys of several characters, one of which has no words. -/
def unusual : Description where
  seed := some (-9223372036854775808)
  parameters := some { step := some (-3.25e-7), start := some (-0.0, 22.5, 1e300) }
  actions := some [("F", "draw"), ("", "say \"\\\n\x01\x7d"), ("F", "é𝄞")]
  rules := some [("F", ["", "F+F"]), ("ab]", []), ("", ["F"]), ("F", [])]

theorem document_reads_back_unusual :
    unusual.Representable ∧ (∀ x ∈ unusual.numbers, ReadsBack x) ∧
      ofText unusual.toJson.compact = .ok unusual := by
  have hd : unusual.Representable := by
    refine ⟨?_, by decide +kernel⟩
    rintro i ⟨⟩
    decide
  have hnumbers : ∀ x ∈ unusual.numbers, ReadsBack x := by
    decide +kernel
  have hread : ofText unusual.toJson.compact = .ok unusual :=
    document_reads_back.1 unusual hd fun x hx _ => hnumbers x hx
  exact ⟨document_reads_back.2 _ unusual hread, hnumbers, hread⟩

end Description

end LSystem
