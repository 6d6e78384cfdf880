import LSystem.Description.Load
import Mathlib.Data.List.Nodup

/-!
# What is checked of a description

A description is loaded by going through its checks in order: the sections, for every entry its key,
that no earlier entry has it and what it holds, and the parameters.  `Description.checks` lists them
with their errors, without saying how they are made, and `Guarded` is what the list has to do with an
outcome: an error is that of the first check that does not hold, and a value comes with all checks
passed.  All checks hold exactly of the valid descriptions (`valid_iff`).
-/

namespace LSystem

/-- Something that has to hold, and the error if it does not. -/
structure Check where
  holds : Prop
  error : LoadError

/-- The error of the first check that does not hold. -/
inductive FirstFault : List Check → LoadError → Prop where
  | here {c : Check} {cs : List Check} (h : ¬ c.holds) : FirstFault (c :: cs) c.error
  | later {c : Check} {cs : List Check} {e : LoadError} (h : c.holds) (rest : FirstFault cs e) :
    FirstFault (c :: cs) e

namespace FirstFault

variable {cs ds : List Check} {e e' : LoadError}

theorem append (h : FirstFault cs e) : FirstFault (cs ++ ds) e := by
  induction h with
  | here h => exact .here h
  | later h _ ih => exact .later h ih

theorem append_of_holds (hcs : ∀ c ∈ cs, c.holds) (h : FirstFault ds e) :
    FirstFault (cs ++ ds) e := by
  induction cs with
  | nil => exact h
  | cons c cs ih =>
    obtain ⟨hc, hcs⟩ := List.forall_mem_cons.mp hcs
    exact .later hc (ih hcs)

theorem not_all_hold (h : FirstFault cs e) : ¬ ∀ c ∈ cs, c.holds := by
  intro hall
  induction h with
  | here h => exact h (hall _ List.mem_cons_self)
  | later _ _ ih => exact ih fun c hc => hall c (List.mem_cons_of_mem _ hc)

theorem unique (h : FirstFault cs e) (h' : FirstFault cs e') : e = e' := by
  induction h with
  | here h =>
    cases h' with
    | here _ => rfl
    | later hc _ => exact absurd hc h
  | later hc _ ih =>
    cases h' with
    | here h' => exact absurd hc h'
    | later _ rest => exact ih rest

end FirstFault

/-! ## Guarded outcomes -/

/-- An error of the outcome is that of the first check that does not hold; a value has the property
`P` and is only there if all checks hold. -/
structure Guarded {β : Type} (cs : List Check) (P : β → Prop) (r : Except LoadError β) : Prop where
  error : ∀ {e}, r = .error e → FirstFault cs e
  ok : ∀ {v}, r = .ok v → (∀ c ∈ cs, c.holds) ∧ P v

namespace Guarded

variable {β γ : Type} {cs ds : List Check} {P : β → Prop} {Q : γ → Prop} {r : Except LoadError β}

theorem pure {v : β} (h : P v) : Guarded [] P (.ok v) where
  error he := nomatch he
  ok hv := by
    obtain rfl := Except.ok.inj hv
    exact ⟨nofun, h⟩

/-- One check in front: the outcome is its error if it does not hold. -/
theorem cons {c : Check} (hfault : ¬ c.holds → r = .error c.error)
    (hrest : c.holds → Guarded cs P r) : Guarded (c :: cs) P r := by
  by_cases hc : c.holds
  · refine ⟨fun he => .later hc ((hrest hc).error he), fun hv => ?_⟩
    obtain ⟨hcs, hP⟩ := (hrest hc).ok hv
    exact ⟨List.forall_mem_cons.mpr ⟨hc, hcs⟩, hP⟩
  · rw [hfault hc]
    refine ⟨fun he => ?_, nofun⟩
    obtain rfl := Except.error.inj he
    exact .here hc

theorem bind {f : β → Except LoadError γ} (h : Guarded cs P r)
    (hf : ∀ v, P v → Guarded ds Q (f v)) : Guarded (cs ++ ds) Q (r >>= f) := by
  cases hr : r with
  | error e =>
    refine ⟨fun he => ?_, nofun⟩
    obtain rfl := Except.error.inj he
    exact (h.error hr).append
  | ok v =>
    obtain ⟨hcs, hP⟩ := h.ok hr
    refine ⟨fun he => ((hf v hP).error he).append_of_holds hcs, fun hw => ?_⟩
    obtain ⟨hds, hQ⟩ := (hf v hP).ok hw
    exact ⟨List.forall_mem_append.mpr ⟨hcs, hds⟩, hQ⟩

theorem map {f : β → γ} (h : Guarded cs P r) (hf : ∀ v, P v → Q (f v)) :
    Guarded cs Q (r >>= fun v => .ok (f v)) := by
  rw [← List.append_nil cs]
  exact h.bind fun v hv => .pure (hf v hv)

theorem exists_ok_iff (h : Guarded cs P r) : (∃ v, r = .ok v) ↔ ∀ c ∈ cs, c.holds := by
  constructor
  · rintro ⟨v, hv⟩
    exact (h.ok hv).1
  · intro hcs
    cases hr : r with
    | ok v => exact ⟨v, rfl⟩
    | error e => exact absurd hcs (h.error hr).not_all_hold

theorem error_iff (h : Guarded cs P r) {e : LoadError} : r = .error e ↔ FirstFault cs e := by
  refine ⟨h.error, fun he => ?_⟩
  cases hr : r with
  | error e' => rw [(h.error hr).unique he]
  | ok v => exact absurd (h.ok hr).1 he.not_all_hold

end Guarded

/-! ## Entries -/

/-- The checks of an entry after entries with the keys `earlier`. -/
def entryChecks {β : Type} (duplicate : String → LoadError) (content : β → List Check)
    (earlier : List String) (entry : String × β) : List Check :=
  ⟨entry.1.length = 1, .invalidSymbolKey entry.1⟩ :: ⟨entry.1 ∉ earlier, duplicate entry.1⟩ ::
    content entry.2

/-- The checks of entries, one entry after the other. -/
def entriesChecks {β : Type} (duplicate : String → LoadError) (content : β → List Check) :
    (earlier : List String) → List (String × β) → List Check
  | _, [] => []
  | earlier, entry :: entries =>
    entryChecks duplicate content earlier entry ++
      entriesChecks duplicate content (earlier ++ [entry.1]) entries

section Entries

variable {β : Type} {duplicate : String → LoadError} {content : β → List Check}

theorem holds_entriesChecks_iff {earlier : List String} {entries : List (String × β)} :
    (∀ c ∈ entriesChecks duplicate content earlier entries, c.holds) ↔
      (∀ e ∈ entries, e.1.length = 1) ∧
        ((entries.map Prod.fst).Nodup ∧ ∀ e ∈ entries, e.1 ∉ earlier) ∧
        ∀ e ∈ entries, ∀ c ∈ content e.2, c.holds := by
  induction entries generalizing earlier with
  | nil => simp [entriesChecks]
  | cons e entries ih =>
    -- No later key is an earlier one or that of this entry.
    have hlater : (∀ x ∈ entries, x.1 ∉ earlier ++ [e.1]) ↔
        e.1 ∉ entries.map Prod.fst ∧ ∀ x ∈ entries, x.1 ∉ earlier := by
      simp only [List.mem_append, List.mem_singleton, List.mem_map, not_or, not_exists, not_and]
      exact ⟨fun h => ⟨fun x hx => (h x hx).2, fun x hx => (h x hx).1⟩,
        fun h x hx => ⟨h.2 x hx, h.1 x hx⟩⟩
    rw [entriesChecks, List.forall_mem_append, ih, hlater, entryChecks, List.forall_mem_cons,
      List.forall_mem_cons, List.forall_mem_cons, List.forall_mem_cons, List.forall_mem_cons,
      List.map_cons, List.nodup_cons]
    constructor
    · rintro ⟨⟨hlength, hnew, hcontent⟩, hlengths, ⟨hnodup, hnotin, hnews⟩, hcontents⟩
      exact ⟨⟨hlength, hlengths⟩, ⟨⟨hnotin, hnodup⟩, hnew, hnews⟩, hcontent, hcontents⟩
    · rintro ⟨⟨hlength, hlengths⟩, ⟨⟨hnotin, hnodup⟩, hnew, hnews⟩, hcontent, hcontents⟩
      exact ⟨⟨hlength, hnew, hcontent⟩, hlengths, ⟨hnodup, hnotin, hnews⟩, hcontents⟩

/-- Going through entries: whatever holds after some of them and is handed on by the next holds in the
end. -/
theorem Guarded.foldlM {σ : Type} {f : σ → String × β → Except LoadError σ}
    {I : List (String × β) → σ → Prop}
    (hf : ∀ done entry s, I done s →
      Guarded (entryChecks duplicate content (done.map Prod.fst) entry) (I (done ++ [entry]))
        (f s entry))
    (entries done : List (String × β)) (s : σ) (hs : I done s) :
    Guarded (entriesChecks duplicate content (done.map Prod.fst) entries) (I (done ++ entries))
      (entries.foldlM f s) := by
  induction entries generalizing done s with
  | nil => exact .pure ((List.append_nil done).symm ▸ hs)
  | cons entry entries ih =>
    rw [List.foldlM_cons]
    refine (hf done entry s hs).bind fun t ht => ?_
    have hrest := ih (done ++ [entry]) t ht
    rwa [List.append_assoc, List.singleton_append, List.map_append, List.map_singleton] at hrest

end Entries

namespace Description

/-! ## Descriptions -/

/-- What loads: every section is there, the keys of each section are single characters without
repetition, every action has a name, and the parameters are numbers that can be drawn with. -/
structure Valid (d : Description) : Prop where
  actions_isSome : d.actions.isSome
  initial_isSome : d.initial.isSome
  rules_isSome : d.rules.isSome
  length_action : ∀ e ∈ d.actions.getD [], e.1.length = 1
  nodup_actions : ((d.actions.getD []).map Prod.fst).Nodup
  ofName_isSome : ∀ e ∈ d.actions.getD [], (Action.ofName? e.2).isSome
  length_rule : ∀ e ∈ d.rules.getD [], e.1.length = 1
  nodup_rules : ((d.rules.getD []).map Prod.fst).Nodup
  step : ∀ {step}, (d.parameters.getD {}).step = some step → step.isFinite ∧ 0.0 < step
  angle : ∀ {angle}, (d.parameters.getD {}).angle = some angle → angle.isFinite
  start : ∀ {x y heading}, (d.parameters.getD {}).start = some (x, y, heading) →
    x.isFinite ∧ y.isFinite ∧ heading.isFinite

/-- The first character of a key. -/
def firstChar (key : String) : Char := key.toList.headD default

def actionsChecks : List (String × String) → List Check :=
  entriesChecks (fun key => .grammar (.duplicateAction (firstChar key)))
    (fun name => [⟨(Action.ofName? name).isSome, .grammar (.unknownAction name)⟩]) []

def rulesChecks : List (String × List String) → List Check :=
  entriesChecks (.duplicateKey "rules") (fun _ => []) []

def finiteCheck (name : String) (value : Float) : Check :=
  ⟨value.isFinite, .invalidParameter name (.notFinite value)⟩

def positiveCheck (name : String) (value : Float) : Check :=
  ⟨0.0 < value, .invalidParameter name (.notPositive value)⟩

/-- The checks of the parameters that are there. -/
def setupChecks (p : Parameters) : List Check :=
  p.step.elim [] (fun step => [finiteCheck "step" step, positiveCheck "step" step]) ++
    p.angle.elim [] (fun angle => [finiteCheck "angle" angle]) ++
    p.start.elim [] fun (x, y, heading) =>
      [finiteCheck "start" x, finiteCheck "start" y, finiteCheck "start" heading]

def grammarChecks (d : Description) : List Check :=
  ⟨d.actions.isSome, .missingField "actions"⟩ :: (actionsChecks (d.actions.getD []) ++
    ⟨d.initial.isSome, .missingField "axiom"⟩ :: ⟨d.rules.isSome, .missingField "rules"⟩ ::
      rulesChecks (d.rules.getD []))

/-- All checks of a description, in the order they are made. -/
def checks (d : Description) : List Check :=
  d.grammarChecks ++ setupChecks (d.parameters.getD {})

theorem holds_setupChecks_iff {p : Parameters} :
    (∀ c ∈ setupChecks p, c.holds) ↔
      (∀ step, p.step = some step → step.isFinite ∧ 0.0 < step) ∧
        (∀ angle, p.angle = some angle → angle.isFinite) ∧
        ∀ x y heading, p.start = some (x, y, heading) →
          x.isFinite ∧ y.isFinite ∧ heading.isFinite := by
  rcases p with ⟨step, angle, start⟩
  cases step <;> cases angle <;> rcases start with _ | ⟨x, y, heading⟩ <;>
    simp [setupChecks, finiteCheck, positiveCheck, and_assoc]

theorem holds_actionsChecks_iff {actions : List (String × String)} :
    (∀ c ∈ actionsChecks actions, c.holds) ↔
      (∀ e ∈ actions, e.1.length = 1) ∧ (actions.map Prod.fst).Nodup ∧
        ∀ e ∈ actions, (Action.ofName? e.2).isSome := by
  simp [actionsChecks, holds_entriesChecks_iff]

theorem holds_rulesChecks_iff {rules : List (String × List String)} :
    (∀ c ∈ rulesChecks rules, c.holds) ↔
      (∀ e ∈ rules, e.1.length = 1) ∧ (rules.map Prod.fst).Nodup := by
  simp [rulesChecks, holds_entriesChecks_iff]

theorem valid_iff {d : Description} : d.Valid ↔ ∀ c ∈ d.checks, c.holds := by
  rw [checks, grammarChecks, List.forall_mem_append, List.forall_mem_cons, List.forall_mem_append,
    List.forall_mem_cons, List.forall_mem_cons, holds_actionsChecks_iff, holds_rulesChecks_iff,
    holds_setupChecks_iff]
  constructor
  · intro h
    exact ⟨⟨h.actions_isSome, ⟨h.length_action, h.nodup_actions, h.ofName_isSome⟩, h.initial_isSome,
      h.rules_isSome, h.length_rule, h.nodup_rules⟩, fun _ => h.step, fun _ => h.angle,
      fun _ _ _ => h.start⟩
  · rintro ⟨⟨hactions, ⟨hkeys, hnodup, hnames⟩, hinitial, hrules, hkeys', hnodup'⟩, hstep, hangle,
      hstart⟩
    exact ⟨hactions, hinitial, hrules, hkeys, hnodup, hnames, hkeys', hnodup', hstep _, hangle _,
      hstart _ _ _⟩

end Description

end LSystem
