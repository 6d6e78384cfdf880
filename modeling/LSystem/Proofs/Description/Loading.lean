import LSystem.Figure.Basic
import LSystem.Proofs.Description.Checks
import LSystem.Proofs.Grammar.Reading

/-!
# From a description to its grammar

Loading goes through the entries of a description and changes a grammar with each.  What the grammar
says of characters after some entries is what these entries say (`Grammar.DescribedBy`); every entry
that is let through keeps it so, and what is let through is what is checked (`guarded_grammar`).
-/

namespace LSystem

open LSystem.Random (Source)

/-! ## Keys -/

theorem exists_eq_singleton {key : String} (h : key.length = 1) : ∃ c, key = String.singleton c := by
  rw [← String.length_toList] at h
  obtain ⟨c, hc⟩ := List.length_eq_one_iff.mp h
  exact ⟨c, String.toList_inj.mp (hc.trans (String.toList_singleton c).symm)⟩

namespace Description

theorem symbolKey_singleton (c : Char) : symbolKey (String.singleton c) = .ok c := by
  simp [symbolKey]

theorem symbolKey_of_length_ne {key : String} (h : key.length ≠ 1) :
    symbolKey key = .error (.invalidSymbolKey key) := by
  unfold symbolKey
  split
  · rename_i c hc
    rw [← String.length_toList, hc] at h
    exact absurd rfl h
  · rfl

theorem firstChar_singleton (c : Char) : firstChar (String.singleton c) = c := by
  simp [firstChar]

end Description

/-! ## What a grammar says after some entries -/

/-- The characters of rules in the order they are met: for every text the key and then the text. -/
def ruleChars (rules : List (String × List String)) : List Char :=
  rules.flatMap fun rule => rule.2.flatMap fun text => rule.1.toList ++ text.toList

namespace Grammar

/-- A grammar that says what the entries of actions and rules and the initial text say. -/
structure DescribedBy (actions : List (String × String)) (initial : String)
    (rules : List (String × List String)) (g : Grammar) : Prop where
  wellFormed : g.WellFormed
  alphabet_eq : g.alphabet =
    Alphabet.extend {} (actions.flatMap (fun e => e.1.toList) ++ initial.toList ++ ruleChars rules)
  isSome_ofName? : ∀ e ∈ actions, (Action.ofName? e.2).isSome
  actionOf?_iff : ∀ {c a}, g.actionOf? c = some a ↔
    ∃ name, (String.singleton c, name) ∈ actions ∧ Action.ofName? name = some a
  textsOf_eq : ∀ {c texts}, (String.singleton c, texts) ∈ rules → g.textsOf c = texts
  textsOf_eq_nil : ∀ {c}, String.singleton c ∉ rules.map Prod.fst → g.textsOf c = []
  text_initial : Word.text g.initial = initial

theorem describedBy_empty : ({} : Grammar).DescribedBy [] "" [] where
  wellFormed := wellFormed_empty
  alphabet_eq := rfl
  isSome_ofName? := nofun
  actionOf?_iff := by simp [actionOf?, symbol?]
  textsOf_eq := nofun
  textsOf_eq_nil _ := by simp [textsOf, symbol?]
  text_initial := rfl

namespace DescribedBy

variable {actions : List (String × String)} {initial : String}
  {rules : List (String × List String)} {g : Grammar}

theorem isSome_actionOf?_iff (h : g.DescribedBy actions initial rules) {c : Char} :
    (g.actionOf? c).isSome ↔ String.singleton c ∈ actions.map Prod.fst := by
  rw [Option.isSome_iff_exists, List.mem_map]
  constructor
  · rintro ⟨a, ha⟩
    obtain ⟨name, hmem, -⟩ := h.actionOf?_iff.mp ha
    exact ⟨_, hmem, rfl⟩
  · rintro ⟨⟨key, name⟩, hmem, rfl⟩
    obtain ⟨a, ha⟩ := Option.isSome_iff_exists.mp (h.isSome_ofName? _ hmem)
    exact ⟨a, h.actionOf?_iff.mpr ⟨name, hmem, ha⟩⟩

theorem bind (h : g.DescribedBy actions "" []) {c : Char} (hc : g.actionOf? c = none)
    {name : String} {a : Action} (ha : Action.ofName? name = some a) :
    (g.bind c a).2.DescribedBy (actions ++ [(String.singleton c, name)]) "" [] where
  wellFormed := h.wellFormed.bind c a
  alphabet_eq := by
    have hinsert : g.alphabet.insert c = g.alphabet.extend [c] := rfl
    rw [alphabet_bind, hinsert, h.alphabet_eq, ← Alphabet.extend_append]
    simp [ruleChars]
  isSome_ofName? e he := by
    rcases List.mem_append.mp he with he | he
    · exact h.isSome_ofName? e he
    · obtain rfl := List.mem_singleton.mp he
      exact ha ▸ rfl
  actionOf?_iff := by
    intro d b
    rw [h.wellFormed.actionOf?_bind hc]
    by_cases hd : d = c
    · subst hd
      have hnew (name : String) : (String.singleton d, name) ∉ actions := fun hmem => by
        have hsome := h.isSome_actionOf?_iff.mpr (List.mem_map_of_mem hmem)
        rw [hc] at hsome
        nomatch hsome
      simp [hnew, ha]
    · simp [hd, h.actionOf?_iff, String.singleton_inj]
  textsOf_eq := nofun
  textsOf_eq_nil hd := by
    rw [h.wellFormed.textsOf_bind hc]
    exact h.textsOf_eq_nil hd
  text_initial := by
    rw [h.wellFormed.bind_of_free hc]
    exact h.text_initial

theorem setInitial (h : g.DescribedBy actions "" []) (text : String) :
    (g.setInitial text).DescribedBy actions text [] where
  wellFormed := h.wellFormed.setInitial text
  alphabet_eq := by
    have hextend : (g.setInitial text).alphabet = g.alphabet.extend text.toList := rfl
    rw [hextend, h.alphabet_eq, ← Alphabet.extend_append]
    simp [ruleChars]
  isSome_ofName? := h.isSome_ofName?
  actionOf?_iff := by
    intro c a
    rw [← h.actionOf?_iff, ← h.wellFormed.actionOf?_extend text.toList c]
    exact Iff.rfl
  textsOf_eq := nofun
  textsOf_eq_nil hc := (h.wellFormed.textsOf_extend text.toList _).trans (h.textsOf_eq_nil hc)
  text_initial := h.wellFormed.text_setInitial text

/-- An entry without texts says nothing. -/
theorem openRule (h : g.DescribedBy actions initial rules) {c : Char}
    (hc : String.singleton c ∉ rules.map Prod.fst) :
    g.DescribedBy actions initial (rules ++ [(String.singleton c, [])]) where
  wellFormed := h.wellFormed
  alphabet_eq := by
    rw [h.alphabet_eq]
    simp [ruleChars]
  isSome_ofName? := h.isSome_ofName?
  actionOf?_iff := h.actionOf?_iff
  textsOf_eq hd := by
    rcases List.mem_append.mp hd with hd | hd
    · exact h.textsOf_eq hd
    · obtain ⟨hkey, rfl⟩ := Prod.mk.inj (List.mem_singleton.mp hd)
      obtain rfl := String.singleton_inj.mp hkey
      exact h.textsOf_eq_nil hc
  textsOf_eq_nil hd := by
    refine h.textsOf_eq_nil fun hmem => hd ?_
    rw [List.map_append]
    exact List.mem_append_left _ hmem
  text_initial := h.text_initial

/-- One more text joins those of the last entry. -/
theorem addRule {c : Char} {texts : List String}
    (h : g.DescribedBy actions initial (rules ++ [(String.singleton c, texts)]))
    (hc : String.singleton c ∉ rules.map Prod.fst) (text : String) :
    (g.addRule c text).DescribedBy actions initial
      (rules ++ [(String.singleton c, texts ++ [text])]) where
  wellFormed := h.wellFormed.addRule c text
  alphabet_eq := by
    have hextend : (g.addRule c text).alphabet = g.alphabet.extend (c :: text.toList) := rfl
    rw [hextend, h.alphabet_eq, ← Alphabet.extend_append]
    simp [ruleChars]
  isSome_ofName? := h.isSome_ofName?
  actionOf?_iff := by
    intro d a
    rw [h.wellFormed.actionOf?_addRule]
    exact h.actionOf?_iff
  textsOf_eq := by
    intro d ts hd
    rw [h.wellFormed.textsOf_addRule]
    rcases List.mem_append.mp hd with hd | hd
    · -- An earlier entry is about another character.
      have hne : d ≠ c := fun hdc => hc (List.mem_map.mpr ⟨_, hd, congrArg String.singleton hdc⟩)
      rw [if_neg hne]
      exact h.textsOf_eq (List.mem_append_left _ hd)
    · obtain ⟨hkey, rfl⟩ := Prod.mk.inj (List.mem_singleton.mp hd)
      obtain rfl := String.singleton_inj.mp hkey
      rw [if_pos rfl, h.textsOf_eq (List.mem_append_right _ (List.mem_singleton.mpr rfl))]
  textsOf_eq_nil := by
    intro d hd
    rw [List.map_append, List.map_singleton] at hd
    have hne : d ≠ c := fun hdc => by simp [hdc] at hd
    rw [h.wellFormed.textsOf_addRule, if_neg hne]
    refine h.textsOf_eq_nil ?_
    rwa [List.map_append, List.map_singleton]
  text_initial := h.text_initial

theorem addRules {c : Char} (more : List String) {texts : List String}
    (h : g.DescribedBy actions initial (rules ++ [(String.singleton c, texts)]))
    (hc : String.singleton c ∉ rules.map Prod.fst) :
    (more.foldl (fun g text => g.addRule c text) g).DescribedBy actions initial
      (rules ++ [(String.singleton c, texts ++ more)]) := by
  induction more generalizing g texts with
  | nil => rwa [List.append_nil]
  | cons text more ih =>
    have hrest := ih (h.addRule hc text)
    rwa [List.append_assoc, List.singleton_append] at hrest

end DescribedBy

end Grammar

/-! ## Loading -/

namespace Description

open Grammar (DescribedBy describedBy_empty)

theorem bindEntry_of_ok {g g' : Grammar} {c : Char} {name : String} {s : Symbol}
    (h : g.bindNamed c name = (.ok s, g')) : bindEntry g (String.singleton c) name = .ok g' := by
  simp only [bindEntry, symbolKey_singleton, Except.bind, Bind.bind, h]

theorem bindEntry_of_error {g g' : Grammar} {c : Char} {name : String} {error : GrammarError}
    (h : g.bindNamed c name = (.error error, g')) :
    bindEntry g (String.singleton c) name = .error (.grammar error) := by
  simp only [bindEntry, symbolKey_singleton, Except.bind, Bind.bind, h]

theorem guarded_bindEntry {done : List (String × String)} {g : Grammar}
    (h : g.DescribedBy done "" []) (entry : String × String) :
    Guarded
      (entryChecks (fun key => .grammar (.duplicateAction (firstChar key)))
        (fun name => [⟨(Action.ofName? name).isSome, .grammar (.unknownAction name)⟩])
        (done.map Prod.fst) entry)
      (fun g => g.DescribedBy (done ++ [entry]) "" []) (bindEntry g entry.1 entry.2) := by
  rcases entry with ⟨key, name⟩
  refine .cons (fun hlength => ?_) fun hlength => ?_
  · rw [bindEntry, symbolKey_of_length_ne hlength]
    rfl
  obtain ⟨c, rfl⟩ := exists_eq_singleton hlength
  -- From here on the key is a character, and binding it is what the outcome hangs on.
  have hbind := h.wellFormed.bindNamed_eq c name
  refine .cons (fun hseen => ?_) fun hnew => ?_
  · rw [if_pos (h.isSome_actionOf?_iff.mpr (not_not.mp hseen))] at hbind
    rw [bindEntry_of_error hbind]
    dsimp only
    rw [firstChar_singleton]
  have hfree : ¬ (g.actionOf? c).isSome := fun hsome => hnew (h.isSome_actionOf?_iff.mp hsome)
  rw [if_neg hfree] at hbind
  refine .cons (fun hname => ?_) fun hname => ?_
  · rw [Option.not_isSome_iff_eq_none.mp hname] at hbind
    exact bindEntry_of_error hbind
  · obtain ⟨a, ha⟩ := Option.isSome_iff_exists.mp hname
    rw [ha] at hbind
    rw [bindEntry_of_ok hbind]
    exact .pure (h.bind (Option.not_isSome_iff_eq_none.mp hfree) ha)

theorem guarded_addEntry {actions : List (String × String)} {initial : String}
    {done : List (String × List String)} {seen : List Char} {g : Grammar}
    (hseen : ∀ c, c ∈ seen ↔ String.singleton c ∈ done.map Prod.fst)
    (h : g.DescribedBy actions initial done) (entry : String × List String) :
    Guarded (entryChecks (.duplicateKey "rules") (fun _ => []) (done.map Prod.fst) entry)
      (fun s : List Char × Grammar =>
        (∀ c, c ∈ s.1 ↔ String.singleton c ∈ (done ++ [entry]).map Prod.fst) ∧
          s.2.DescribedBy actions initial (done ++ [entry]))
      (addEntry seen g entry.1 entry.2) := by
  rcases entry with ⟨key, words⟩
  refine .cons (fun hlength => ?_) fun hlength => ?_
  · rw [addEntry, symbolKey_of_length_ne hlength]
    rfl
  obtain ⟨c, rfl⟩ := exists_eq_singleton hlength
  have hadd : addEntry seen g (String.singleton c) words =
      if seen.contains c then .error (.duplicateKey "rules" (String.singleton c))
      else .ok (c :: seen, words.foldl (fun g w => g.addRule c w) g) := by
    rw [addEntry, symbolKey_singleton]
    rfl
  rw [hadd]
  refine .cons (fun hold => ?_) fun hnew => ?_
  · rw [if_pos (List.contains_iff_mem.mpr ((hseen c).mpr (not_not.mp hold)))]
  · have hc : ¬ seen.contains c := fun hc => hnew ((hseen c).mp (List.contains_iff_mem.mp hc))
    rw [if_neg hc]
    refine .pure ⟨fun d => ?_, ?_⟩
    · rw [List.mem_cons, hseen d, List.map_append, List.mem_append, List.map_singleton,
        List.mem_singleton, String.singleton_inj]
      exact Or.comm
    · exact (h.openRule hnew).addRules words hnew

/-- The grammar of a description is there exactly if its checks hold, and says what the description
says. -/
theorem guarded_grammar (d : Description) :
    Guarded d.grammarChecks
      (fun g => g.DescribedBy (d.actions.getD []) (d.initial.getD "") (d.rules.getD []))
      d.grammar := by
  rcases d with ⟨seed, parameters, actions, initial, rules⟩
  unfold grammarChecks grammar
  refine .cons (fun hactions => ?_) fun hactions => ?_
  · rw [Option.not_isSome_iff_eq_none.mp hactions]
    rfl
  obtain ⟨actions, rfl⟩ := Option.isSome_iff_exists.mp hactions
  have hbound := Guarded.foldlM (I := fun done (g : Grammar) => g.DescribedBy done "" [])
    (f := fun g entry => bindEntry g entry.1 entry.2)
    (fun _ entry _ h => guarded_bindEntry h entry) actions [] {} describedBy_empty
  refine hbound.bind fun g hg => ?_
  refine .cons (fun hinitial => ?_) fun hinitial => ?_
  · rw [Option.not_isSome_iff_eq_none.mp hinitial]
    rfl
  obtain ⟨initial, rfl⟩ := Option.isSome_iff_exists.mp hinitial
  refine .cons (fun hrules => ?_) fun hrules => ?_
  · rw [Option.not_isSome_iff_eq_none.mp hrules]
    rfl
  obtain ⟨rules, rfl⟩ := Option.isSome_iff_exists.mp hrules
  have hadded := Guarded.foldlM
    (I := fun done (s : List Char × Grammar) =>
      (∀ c, c ∈ s.1 ↔ String.singleton c ∈ done.map Prod.fst) ∧
        s.2.DescribedBy actions initial done)
    (f := fun s entry => addEntry s.1 s.2 entry.1 entry.2)
    (fun _ entry _ h => guarded_addEntry h.1 h.2 entry) rules [] ([], g.setInitial initial)
    ⟨by simp, hg.setInitial initial⟩
  exact hadded.map fun s hs => hs.2

theorem guarded_finite (name : String) (value : Float) :
    Guarded [finiteCheck name value] (· = value) (finite name value) := by
  refine .cons (fun hvalue => if_neg hvalue) fun hvalue => ?_
  have hok : finite name value = .ok value := if_pos hvalue
  rw [hok]
  exact .pure rfl

theorem guarded_positive (name : String) (value : Float) :
    Guarded [finiteCheck name value, positiveCheck name value] (· = value)
      (positive name value) := by
  change Guarded ([_] ++ [_]) _ _
  refine (guarded_finite name value).bind fun v hv => ?_
  subst hv
  refine .cons (fun hvalue => if_neg hvalue) fun hvalue => ?_
  have hpositive : (0.0 : Float) < v := hvalue
  rw [if_pos hpositive]
  exact .pure rfl

/-- What is absent needs no check. -/
theorem guarded_elim {β : Type} {checks : β → List Check} {f : β → Except LoadError β}
    (hf : ∀ v, Guarded (checks v) (· = v) (f v)) (usual : β) (value : Option β) :
    Guarded (value.elim [] checks) (· = value.getD usual) (value.elim (.ok usual) f) := by
  cases value with
  | none => exact .pure rfl
  | some v => exact hf v

theorem guarded_setup (d : Description) :
    Guarded (setupChecks (d.parameters.getD {})) (fun _ => True) d.setup := by
  unfold setup setupChecks
  rw [List.append_assoc]
  refine (guarded_elim (guarded_positive "step") _ _).bind fun step _ => ?_
  refine (guarded_elim (guarded_finite "angle") _ _).bind fun angle _ => ?_
  cases (d.parameters.getD {}).start with
  | none => exact .pure trivial
  | some start =>
    change Guarded ([_] ++ ([_] ++ [_])) _ _
    refine (guarded_finite "start" start.1).bind fun x _ => ?_
    refine (guarded_finite "start" start.2.1).bind fun y _ => ?_
    exact (guarded_finite "start" start.2.2).map fun _ _ => trivial

theorem figure_value (d : Description) (seed : UInt64) :
    (d.figure seed).value = d.grammar >>= fun grammar => d.setup >>= fun setup =>
      .ok { grammar, setup, source := .ofSeed (d.seedWord?.getD seed) } := by
  unfold figure
  cases d.grammar with
  | error e => rfl
  | ok grammar => cases d.setup <;> rfl

theorem figure_eq_ok_iff {d : Description} {seed : UInt64} {f : Figure Float} :
    (d.figure seed).value = .ok f ↔ d.grammar = .ok f.grammar ∧ d.setup = .ok f.setup ∧
      f.source = .ofSeed (d.seedWord?.getD seed) := by
  rcases f with ⟨grammar, setup, source⟩
  rw [figure_value]
  constructor
  · intro h
    cases hgrammar : d.grammar with
    | error e => rw [hgrammar] at h; nomatch h
    | ok g =>
      cases hsetup : d.setup with
      | error e => rw [hgrammar, hsetup] at h; nomatch h
      | ok s =>
        rw [hgrammar, hsetup] at h
        obtain ⟨rfl, rfl, rfl⟩ := Figure.mk.inj (Except.ok.inj h)
        exact ⟨rfl, rfl, rfl⟩
  · rintro ⟨hgrammar, hsetup, rfl⟩
    rw [hgrammar, hsetup]
    rfl

/-- A description becomes a figure exactly if its checks hold. -/
theorem guarded_figure (d : Description) (seed : UInt64) :
    Guarded d.checks
      (fun f => f.grammar.DescribedBy (d.actions.getD []) (d.initial.getD "") (d.rules.getD []) ∧
        f.source = .ofSeed (d.seedWord?.getD seed))
      (d.figure seed).value := by
  rw [figure_value]
  exact d.guarded_grammar.bind fun g hg => d.guarded_setup.map fun _ _ => ⟨hg, rfl⟩

theorem exists_figure_iff {d : Description} {seed : UInt64} :
    (∃ f, (d.figure seed).value = .ok f) ↔ d.Valid :=
  (d.guarded_figure seed).exists_ok_iff.trans valid_iff.symm

/-- Exactly the valid descriptions load, and what stops another one is the first of its checks that
does not hold: that there are actions, then for every entry of them that its key is one character, is
new and has the name of an action; that there are an initial word and rules, then for every entry of
them that its key is one character and is new; then the step, the angle and the three numbers of the
start. -/
theorem loads_iff_valid_or_firstFault (d : Description) (seed : UInt64) :
    ((∃ f, (d.figure seed).value = .ok f) ↔ d.Valid) ∧
      (d.Valid ↔ ∀ c ∈ d.checks, c.holds) ∧
      ∀ e, (d.figure seed).value = .error e ↔ FirstFault d.checks e :=
  ⟨exists_figure_iff, valid_iff, fun _ => (d.guarded_figure seed).error_iff⟩

end Description

end LSystem
