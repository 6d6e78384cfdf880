import LSystem.Proofs.Grammar.Reading

/-!
# Binding once

A character that has no action can be given one, and keeps it from then on whatever the store is
asked for (`Store.action?_run`).  Binding lets the character join before it looks for an action, so
that a refused binding leaves no trace rests on the tables being in step: only a character that has
joined before can have an action (`WellFormed.bind_of_taken`).
-/

namespace LSystem

open LSystem.Random (Source)

namespace Grammar

/-! ## What becomes of a binding -/

/-- A character has been given an action: its slot has been filled, and if the character is new, it
has joined behind all others with a slot for its action and one for its alternatives. -/
inductive Gains (g : Grammar) (c : Char) (a : Action) : Symbol → Grammar → Prop where
  | seen {s : Symbol} (h : g.symbol? c = some s) (hslot : s.id < g.actions.size) :
      g.Gains c a s { g with actions := g.actions.setIfInBounds s.id (some a) }
  | new (h : g.symbol? c = none) :
      g.Gains c a ⟨g.symbols.length, c⟩
        { alphabet := g.alphabet.push ⟨g.symbols.length, c⟩
          actions := g.actions.push (some a)
          rules := g.rules.push #[]
          initial := g.initial }

theorem fill_succ {β : Type} {n : ℕ} {v : β} {a : Array β} (h : a.size = n) :
    fill (n + 1) v a = a.push v := by
  rw [fill, h, Nat.add_sub_cancel_left]
  rfl

theorem setIfInBounds_push_size {β : Type} {n : ℕ} {a : Array β} (h : a.size = n) (v w : β) :
    (a.push v).setIfInBounds n w = a.push w := by
  refine Array.ext_getElem? fun i => ?_
  rw [Array.getElem?_setIfInBounds, Array.size_push, Array.getElem?_push, Array.getElem?_push, h]
  by_cases hi : i = n
  · simp [hi]
  · simp [hi, Ne.symm hi]

namespace WellFormed

variable {g : Grammar}

theorem intern_of_seen (h : g.WellFormed) {c : Char} {s : Symbol} (hs : g.symbol? c = some s) :
    g.intern c = (s, g) := by
  change g.alphabet.symbol? c = some s at hs
  rw [Grammar.intern, Alphabet.insert_of_seen hs, h.withAlphabet_self, Alphabet.symbol, hs]
  rfl

theorem intern_of_new (h : g.WellFormed) {c : Char} (hc : g.symbol? c = none) :
    g.intern c = (⟨g.symbols.length, c⟩,
      { alphabet := g.alphabet.push ⟨g.symbols.length, c⟩
        actions := g.actions.push none
        rules := g.rules.push #[]
        initial := g.initial }) := by
  change g.alphabet.symbol? c = none at hc
  have hsize : (g.alphabet.push ⟨g.alphabet.size, c⟩).size = g.symbols.length + 1 := by
    rw [← Alphabet.length_symbols, Alphabet.symbols_push, List.length_append]
    rfl
  rw [Grammar.intern, Alphabet.insert_of_new hc, Alphabet.symbol, hc, h.consistent.fresh_eq,
    Grammar.withAlphabet, hsize, fill_succ h.size_actions, fill_succ h.size_rules, symbols,
    Alphabet.length_symbols]
  rfl

/-- Only a character that has joined before has an action, so refusing it changes nothing. -/
theorem bind_of_taken (h : g.WellFormed) {c : Char} (hc : (g.actionOf? c).isSome) (a : Action) :
    g.bind c a = (.error (.duplicateAction c), g) := by
  obtain ⟨b, hb⟩ := Option.isSome_iff_exists.mp hc
  have hbound : g.isBound c = true := by rw [isBound_eq, hb]; rfl
  have hsame : (g.intern c).2 = g := by
    rw [Grammar.intern, insert_of_isBound hbound]
    exact h.withAlphabet_self
  rw [bind_of_bound ((h.action?_intern_eq c).trans hb), hsame]

theorem gains_bind (h : g.WellFormed) {c : Char} (hc : g.actionOf? c = none) (a : Action) :
    ∃ s g', g.bind c a = (.ok s, g') ∧ g.Gains c a s g' := by
  rw [h.bind_of_free hc]
  cases hs : g.symbol? c with
  | some s =>
    have hmem : s ∈ g.symbols := (h.consistent.symbol?_eq_some.mp hs).1
    rw [h.intern_of_seen hs]
    exact ⟨s, _, rfl, .seen hs (h.id_lt hmem).1⟩
  | none =>
    rw [h.intern_of_new hs]
    dsimp only
    rw [setIfInBounds_push_size h.size_actions]
    exact ⟨_, _, rfl, .new hs⟩

theorem bind_eq_error_iff (h : g.WellFormed) {c : Char} {a : Action} {e : GrammarError} :
    (g.bind c a).1 = .error e ↔ e = .duplicateAction c ∧ (g.actionOf? c).isSome := by
  cases hc : g.actionOf? c with
  | some b =>
    rw [h.bind_of_taken (by rw [hc]; rfl)]
    exact ⟨fun he => ⟨(Except.error.inj he).symm, rfl⟩, fun he => congrArg Except.error he.1.symm⟩
  | none =>
    obtain ⟨s, g', hbind, -⟩ := h.gains_bind hc a
    rw [hbind]
    exact ⟨nofun, fun he => nomatch he.2⟩

theorem snd_bind_of_error (h : g.WellFormed) {c : Char} {a : Action} {e : GrammarError}
    (he : (g.bind c a).1 = .error e) : (g.bind c a).2 = g := by
  rw [h.bind_of_taken (h.bind_eq_error_iff.mp he).2]

end WellFormed

/-- A name is only looked at if the character has no action. -/
theorem bindNamed_of_free {g : Grammar} {c : Char} (hc : g.actionOf? c = none) (name : String) :
    g.bindNamed c name =
      match Action.ofName? name with
      | some a => g.bind c a
      | none => (.error (.unknownAction name), g) := by
  rw [bindNamed, isBound_eq, hc]
  rfl

theorem bindNamed_of_taken {g : Grammar} {c : Char} (hc : (g.actionOf? c).isSome) (name : String) :
    g.bindNamed c name = (.error (.duplicateAction c), g) := by
  rw [bindNamed, isBound_eq, hc]
  rfl

namespace WellFormed

variable {g : Grammar}

theorem bindNamed_eq_error_iff (h : g.WellFormed) {c : Char} {name : String} {e : GrammarError} :
    (g.bindNamed c name).1 = .error e ↔
      e = .duplicateAction c ∧ (g.actionOf? c).isSome ∨
        e = .unknownAction name ∧ g.actionOf? c = none ∧ Action.ofName? name = none := by
  cases hc : g.actionOf? c with
  | some b =>
    rw [bindNamed_of_taken (by rw [hc]; rfl)]
    simp [eq_comm]
  | none =>
    rw [bindNamed_of_free hc]
    cases Action.ofName? name with
    | some a => simp [h.bind_eq_error_iff, hc]
    | none => simp [eq_comm]

theorem snd_bindNamed_of_error (h : g.WellFormed) {c : Char} {name : String} {e : GrammarError}
    (he : (g.bindNamed c name).1 = .error e) : (g.bindNamed c name).2 = g := by
  cases hc : g.actionOf? c with
  | some b => rw [bindNamed_of_taken (by rw [hc]; rfl)]
  | none =>
    rw [bindNamed_of_free hc] at he ⊢
    cases hname : Action.ofName? name with
    | some a =>
      rw [hname] at he
      exact h.snd_bind_of_error he
    | none => rfl

end WellFormed

/-! ## Actions that stay -/

variable {g : Grammar} {s : Symbol} {b : Action}

theorem action?_bind (h : g.action? s = some b) (c : Char) (a : Action) :
    (g.bind c a).2.action? s = some b := by
  cases hc : g.action? (g.intern c).1 with
  | some _ =>
    rw [bind_of_bound hc, action?_intern]
    exact h
  | none =>
    -- The slot that is filled was free, so it is another one.
    have hid : (g.intern c).1.id ≠ s.id := by
      intro hid
      rw [action?, hid] at hc
      rw [action?, hc] at h
      cases h
    rw [bind_of_unbound hc, action?, Array.getD_eq_getD_getElem?, Array.getElem?_setIfInBounds_ne hid,
      ← Array.getD_eq_getD_getElem?]
    exact (g.action?_intern c s).trans h

theorem action?_bindNamed (h : g.action? s = some b) (c : Char) (name : String) :
    (g.bindNamed c name).2.action? s = some b := by
  unfold bindNamed
  split
  · exact h
  · split
    · exact action?_bind h c _
    · exact h

theorem action?_setInitial (g : Grammar) (text : String) (s : Symbol) :
    (g.setInitial text).action? s = g.action? s :=
  g.action?_withAlphabet _ s

theorem action?_addRule (g : Grammar) (c : Char) (text : String) (s : Symbol) :
    (g.addRule c text).action? s = g.action? s := by
  have hactions : (g.addRule c text).actions = ((g.intern c).2.internWord text).2.actions := rfl
  have hword : ((g.intern c).2.internWord text).2.action? s = (g.intern c).2.action? s :=
    (g.intern c).2.action?_withAlphabet _ s
  rw [action?, hactions, ← action?, hword, action?_intern]

end Grammar

namespace Store

theorem answerBinding_eq_refused_iff {st : Store} {r : Except GrammarError Symbol × Grammar}
    {e : GrammarError} : (st.answerBinding r).1 = .refused e ↔ r.1 = .error e := by
  rcases r with ⟨error | symbol, grammar⟩
  · simp [answerBinding]
  · exact ⟨nofun, nofun⟩

theorem snd_answerBinding (st : Store) (r : Except GrammarError Symbol × Grammar) :
    (st.answerBinding r).2 = { st with grammar := r.2 } := by
  rcases r with ⟨_ | _, _⟩ <;> rfl

/-- A request that is refused changes nothing. -/
theorem serve_refused {st : Store} (h : st.grammar.WellFormed) {r : Request} {e : GrammarError}
    (hr : (st.serve r).1 = .refused e) : (st.serve r).2 = st := by
  cases r with
  | bind c a =>
    rw [serve, snd_answerBinding, h.snd_bind_of_error (answerBinding_eq_refused_iff.mp hr)]
  | bindNamed c name =>
    rw [serve, snd_answerBinding,
      h.snd_bindNamed_of_error (answerBinding_eq_refused_iff.mp hr)]
  | rewrite s =>
    rw [serve] at hr
    split at hr <;> cases hr
  | _ => cases hr

theorem action?_serve {st : Store} {s : Symbol} {b : Action} (h : st.grammar.action? s = some b)
    (r : Request) : (st.serve r).2.grammar.action? s = some b := by
  cases r with
  | intern c => exact (st.grammar.action?_intern c s).trans h
  | bind c a =>
    rw [serve, grammar_answerBinding]
    exact Grammar.action?_bind h c a
  | bindNamed c name =>
    rw [serve, grammar_answerBinding]
    exact Grammar.action?_bindNamed h c name
  | setInitial text => exact (st.grammar.action?_setInitial text s).trans h
  | addRule c text => exact (st.grammar.action?_addRule c text s).trans h
  | setSeed seed => exact h
  | reset => exact h
  | rewrite t =>
    rw [grammar_rewrite]
    exact h

/-- A symbol that has an action keeps it, whatever the store is asked for. -/
theorem action?_run {st : Store} {s : Symbol} {b : Action} (h : st.grammar.action? s = some b)
    (rs : List Request) : (st.run rs).grammar.action? s = some b := by
  induction rs generalizing st with
  | nil => exact h
  | cons r rs ih => exact ih (action?_serve h r)

/-- Binding is write-once, and a refusal changes nothing.  After any requests, a character can be
given an action just if it has none, and by name just if the name is also known; that it has one is
told before that the name is unknown.  A request that is refused leaves the whole store as it was.
One that is not fills the slot of the character, which joins if it is new, and changes nothing else.
From then on the symbol has its action, whatever is asked for and whatever is refused. -/
theorem binding_write_once (source : Source) (rs : List Request) :
    let st := ({ source } : Store).run rs
    let g := st.grammar
    (∀ c a e, (st.serve (.bind c a)).1 = .refused e ↔
      e = .duplicateAction c ∧ (g.actionOf? c).isSome) ∧
      (∀ c name e, (st.serve (.bindNamed c name)).1 = .refused e ↔
        e = .duplicateAction c ∧ (g.actionOf? c).isSome ∨
          e = .unknownAction name ∧ g.actionOf? c = none ∧ Action.ofName? name = none) ∧
      (∀ c name a, g.actionOf? c = none → Action.ofName? name = some a →
        st.serve (.bindNamed c name) = st.serve (.bind c a)) ∧
      (∀ r e, (st.serve r).1 = .refused e → (st.serve r).2 = st) ∧
      (∀ c a, g.actionOf? c = none →
        ∃ s g', g.Gains c a s g' ∧ st.serve (.bind c a) = (.symbol s, { st with grammar := g' })) ∧
      ∀ s a, g.action? s = some a → ∀ later, (st.run later).grammar.action? s = some a := by
  intro st g
  have hg : g.WellFormed := wellFormed_run Grammar.wellFormed_empty rs
  refine ⟨fun c a e => ?_, fun c name e => ?_, fun c name a hc hname => ?_,
    fun r e hr => serve_refused hg hr, fun c a hc => ?_, fun s a h later => action?_run h later⟩
  · exact answerBinding_eq_refused_iff.trans hg.bind_eq_error_iff
  · exact answerBinding_eq_refused_iff.trans hg.bindNamed_eq_error_iff
  · rw [serve, serve, Grammar.bindNamed_of_free hc, hname]
  · obtain ⟨s, g', hbind, hgains⟩ := hg.gains_bind hc a
    refine ⟨s, g', hgains, ?_⟩
    rw [serve, hbind]
    rfl

theorem binding_write_once_stem :
    let st := ({ source := .ofSeed 7 } : Store).run [.bind 'F' .draw, .addRule 'F' "F+F"]
    (st.serve (.bind 'F' .move)).1 = .refused (.duplicateAction 'F') ∧
      (st.serve (.bind 'F' .move)).2 = st ∧
      (st.serve (.bindNamed '+' "jump")).1 = .refused (.unknownAction "jump") ∧
      (st.serve (.bindNamed '+' "jump")).2 = st ∧
      st.serve (.bindNamed '+' " TurnL") = st.serve (.bind '+' .turnLeft) ∧
      (st.run [.bindNamed 'F' "move", .intern 'G']).grammar.action? ⟨0, 'F'⟩ = some .draw := by
  intro st
  obtain ⟨hbind, hnamed, hparsed, hsame, -, hstays⟩ :=
    binding_write_once (.ofSeed 7) [.bind 'F' .draw, .addRule 'F' "F+F"]
  have htaken := (hbind 'F' .move _).mpr ⟨rfl, by decide⟩
  have hfree : st.grammar.actionOf? '+' = none := by decide
  have hunknown := (hnamed '+' "jump" _).mpr (Or.inr ⟨rfl, hfree, by decide +kernel⟩)
  exact ⟨htaken, hsame _ _ htaken, hunknown, hsame _ _ hunknown,
    hparsed '+' " TurnL" .turnLeft hfree (by decide +kernel), hstays ⟨0, 'F'⟩ .draw (by decide) _⟩

end Store

end LSystem
