import LSystem.Grammar.Growth
import LSystem.Grammar.Store
import LSystem.Proofs.Grammar.Alphabet
import LSystem.Proofs.Walk.Expansion

/-!
# What a store keeps

A grammar looks symbols up by their ids and never checks that an id belongs to it.  That every look-up
answers for the right symbol is an invariant of the whole grammar (`Grammar.WellFormed`): its alphabet
is consistent, there is one action and one list of alternatives for every symbol, and all words hold
symbols of the alphabet.  Every request keeps it, and whatever is asked for, the alphabet becomes what
the characters of the request make of it (`Store.alphabet_serve`).
-/

namespace LSystem

open LSystem.Random (Source choose place_lt WordSource)

namespace Grammar

/-! ## More letters -/

section WithAlphabet

variable {β : Type}

theorem size_fill {n : Nat} {v : β} {a : Array β} (h : a.size ≤ n) : (fill n v a).size = n := by
  rw [fill, Array.size_append, Array.size_replicate]
  omega

theorem fill_of_size {n : Nat} {v : β} {a : Array β} (h : a.size = n) : fill n v a = a := by
  rw [fill, h, Nat.sub_self, Array.replicate_zero, Array.append_empty]

-- Every look-up has the filling as its default, so it does not see the difference.
theorem getD_fill (n i : Nat) (v : β) (a : Array β) : (fill n v a).getD i v = a.getD i v := by
  simp only [fill, Array.getD_eq_getD_getElem?, Array.getElem?_append, Array.getElem?_replicate]
  split
  · rfl
  · rename_i hi
    rw [Array.getElem?_eq_none (by omega)]
    split <;> rfl

theorem mem_fill {n : Nat} {v x : β} {a : Array β} (h : x ∈ fill n v a) : x ∈ a ∨ x = v := by
  rcases Array.mem_append.mp h with hx | hx
  · exact Or.inl hx
  · exact Or.inr (Array.mem_replicate.mp hx).2

variable (g : Grammar) (a : Alphabet)

@[simp] theorem symbols_withAlphabet : (g.withAlphabet a).symbols = a.symbols := rfl

@[simp] theorem action?_withAlphabet (s : Symbol) : (g.withAlphabet a).action? s = g.action? s :=
  getD_fill _ _ _ _

@[simp] theorem alternatives_withAlphabet (s : Symbol) :
    (g.withAlphabet a).alternatives s = g.alternatives s :=
  getD_fill _ _ _ _

end WithAlphabet

theorem action?_intern (g : Grammar) (c : Char) (s : Symbol) :
    (g.intern c).2.action? s = g.action? s :=
  g.action?_withAlphabet _ s

/-! ## Binding -/

theorem bind_of_bound {g : Grammar} {c : Char} {b : Action}
    (h : g.action? (g.intern c).1 = some b) (a : Action) :
    g.bind c a = (.error (.duplicateAction c), (g.intern c).2) := by
  rw [← action?_intern g c] at h
  simp only [bind, h]

theorem bind_of_unbound {g : Grammar} {c : Char} (h : g.action? (g.intern c).1 = none)
    (a : Action) :
    g.bind c a = (.ok (g.intern c).1,
      { (g.intern c).2 with
        actions := (g.intern c).2.actions.setIfInBounds (g.intern c).1.id (some a) }) := by
  rw [← action?_intern g c] at h
  simp only [bind, h]

theorem alphabet_bind (g : Grammar) (c : Char) (a : Action) :
    (g.bind c a).2.alphabet = g.alphabet.insert c := by
  cases h : g.action? (g.intern c).1 with
  | some b => rw [bind_of_bound h]; rfl
  | none => rw [bind_of_unbound h]; rfl

theorem alternatives_bind (g : Grammar) (c : Char) (a : Action) (s : Symbol) :
    (g.bind c a).2.alternatives s = g.alternatives s := by
  cases h : g.action? (g.intern c).1 with
  | some b =>
    rw [bind_of_bound h]
    exact g.alternatives_withAlphabet _ s
  | none =>
    rw [bind_of_unbound h]
    exact g.alternatives_withAlphabet _ s

theorem alternatives_bindNamed (g : Grammar) (c : Char) (name : String) (s : Symbol) :
    (g.bindNamed c name).2.alternatives s = g.alternatives s := by
  unfold bindNamed
  split
  · rfl
  · split
    · exact g.alternatives_bind c _ s
    · rfl

theorem insert_of_isBound {g : Grammar} {c : Char} (h : g.isBound c = true) :
    g.alphabet.insert c = g.alphabet := by
  unfold isBound at h
  split at h
  · exact Alphabet.insert_of_seen ‹_›
  · nomatch h

/-! ## One more rule -/

theorem size_alternatives_pushRule_le (g : Grammar) (w : Word) (id : Nat) (s : Symbol) :
    ({ g with rules := g.rules.modify id (·.push w) }.alternatives s).size ≤
      (g.alternatives s).size + 1 := by
  rw [alternatives, alternatives, Array.getD_eq_getD_getElem?, Array.getD_eq_getD_getElem?,
    Array.getElem?_modify]
  cases g.rules[s.id]? <;> split <;> simp

theorem size_alternatives_addRule_le (g : Grammar) (c : Char) (text : String) (s : Symbol) :
    ((g.addRule c text).alternatives s).size ≤ (g.alternatives s).size + 1 := by
  have hpush := ((g.intern c).2.internWord text).2.size_alternatives_pushRule_le
    ((g.intern c).2.internWord text).1 (g.intern c).1.id s
  have hword : ((g.intern c).2.internWord text).2.alternatives s = (g.intern c).2.alternatives s :=
    alternatives_withAlphabet _ _ s
  have hintern : (g.intern c).2.alternatives s = g.alternatives s := alternatives_withAlphabet _ _ s
  rw [hword, hintern] at hpush
  exact hpush

/-! ## The invariant -/

/-- All symbols of a word are symbols of the grammar. -/
def Knows (g : Grammar) (w : Word) : Prop := ∀ s ∈ w, s ∈ g.symbols

/-- The words that a grammar holds: its initial word and all alternatives. -/
def words (g : Grammar) : List Word := g.initial :: g.rules.toList.flatMap Array.toList

/-- The tables of the grammar are as long as its alphabet, and all words it holds are words over
the alphabet. -/
structure WellFormed (g : Grammar) : Prop where
  consistent : g.alphabet.Consistent
  size_actions : g.actions.size = g.symbols.length
  size_rules : g.rules.size = g.symbols.length
  knows_initial : g.Knows g.initial
  knows_rules : ∀ ws ∈ g.rules, ∀ w ∈ ws, g.Knows w

theorem wellFormed_empty : ({} : Grammar).WellFormed where
  consistent := Alphabet.consistent_empty
  size_actions := rfl
  size_rules := rfl
  knows_initial := by simp [Knows]
  knows_rules := by simp

theorem Knows.mono {g h : Grammar} {w : Word} (hw : g.Knows w) (hsub : g.symbols <+: h.symbols) :
    h.Knows w :=
  fun s hs => hsub.subset (hw s hs)

namespace WellFormed

variable {g : Grammar}

theorem knows_alternative (h : g.WellFormed) {s : Symbol} {w : Word} (hw : w ∈ g.alternatives s) :
    g.Knows w := by
  rcases g.alternatives_eq_empty_or_mem s with hempty | hmem
  · rw [hempty] at hw
    exact absurd hw (Array.not_mem_empty w)
  · exact h.knows_rules _ hmem w hw

theorem knows_words (h : g.WellFormed) {w : Word} (hw : w ∈ g.words) : g.Knows w := by
  rcases List.mem_cons.mp hw with rfl | hrule
  · exact h.knows_initial
  · obtain ⟨ws, hws, hmem⟩ := List.mem_flatMap.mp hrule
    exact h.knows_rules ws (Array.mem_toList_iff.mp hws) w (Array.mem_toList_iff.mp hmem)

/-- Every symbol of the grammar has a slot in both tables. -/
theorem id_lt (h : g.WellFormed) {s : Symbol} (hs : s ∈ g.symbols) :
    s.id < g.actions.size ∧ s.id < g.rules.size := by
  have hid : s.id < g.symbols.length := g.alphabet.length_symbols ▸ h.consistent.id_lt hs
  rw [h.size_actions, h.size_rules]
  exact ⟨hid, hid⟩

theorem withAlphabet (h : g.WellFormed) {a : Alphabet} (ha : a.Consistent)
    (hsub : g.symbols <+: a.symbols) : (g.withAlphabet a).WellFormed := by
  have hle : g.symbols.length ≤ a.size := a.length_symbols ▸ hsub.length_le
  refine ⟨ha, ?_, ?_, h.knows_initial.mono hsub, ?_⟩
  · rw [symbols_withAlphabet, Alphabet.length_symbols]
    exact size_fill (h.size_actions ▸ hle)
  · rw [symbols_withAlphabet, Alphabet.length_symbols]
    exact size_fill (h.size_rules ▸ hle)
  · intro ws hws w hw
    rcases mem_fill hws with hmem | rfl
    · exact (h.knows_rules ws hmem w hw).mono hsub
    · simp at hw

theorem extend (h : g.WellFormed) (cs : List Char) :
    (g.withAlphabet (g.alphabet.extend cs)).WellFormed :=
  h.withAlphabet (h.consistent.extend cs) (g.alphabet.symbols_prefix_extend cs)

theorem internWord (h : g.WellFormed) (text : String) : (g.internWord text).2.WellFormed :=
  h.extend text.toList

theorem knows_internWord (h : g.WellFormed) (text : String) :
    (g.internWord text).2.Knows (g.internWord text).1 := by
  intro s hs
  obtain ⟨c, hc, rfl⟩ := List.mem_map.mp hs
  refine (h.consistent.extend text.toList).symbol_mem ?_
  rw [h.consistent.chars_extend, List.mem_eraseDups]
  exact List.mem_append_right _ hc

theorem intern (h : g.WellFormed) (c : Char) : (g.intern c).2.WellFormed := h.extend [c]

theorem intern_mem (h : g.WellFormed) (c : Char) : (g.intern c).1 ∈ (g.intern c).2.symbols := by
  cases hc : g.alphabet.symbol? c with
  | some s =>
    have hs := h.consistent.symbol?_eq_some.mp hc
    simp only [Grammar.intern, Alphabet.symbol, Alphabet.insert_of_seen hc, hc]
    exact hs.1
  | none =>
    simp [Grammar.intern, Alphabet.symbol, Alphabet.insert_of_new hc, hc]

theorem bind_mem (h : g.WellFormed) {c : Char} {a : Action} {s : Symbol}
    (hs : (g.bind c a).1 = .ok s) : s ∈ (g.bind c a).2.symbols := by
  cases hc : g.action? (g.intern c).1 with
  | some b =>
    rw [bind_of_bound hc] at hs
    nomatch hs
  | none =>
    rw [bind_of_unbound hc] at hs ⊢
    obtain rfl := Except.ok.inj hs
    exact h.intern_mem c

theorem bindNamed_mem (h : g.WellFormed) {c : Char} {name : String} {s : Symbol}
    (hs : (g.bindNamed c name).1 = .ok s) : s ∈ (g.bindNamed c name).2.symbols := by
  unfold Grammar.bindNamed at hs ⊢
  split at hs
  · nomatch hs
  · rename_i hbound
    rw [if_neg hbound]
    split at hs
    · exact h.bind_mem hs
    · nomatch hs

theorem rewrite?_known (h : g.WellFormed) {s : Symbol} {source : Source} {r : Word × Source}
    (hr : g.rewrite? s source = some r) : g.Knows r.1 := by
  by_cases hs : 0 < (g.alternatives s).size
  · rw [rewrite?_of_alternatives hs] at hr
    obtain rfl := Option.some.inj hr
    exact h.knows_alternative (Array.getElem_mem _)
  · rw [rewrite?_of_terminal hs] at hr
    nomatch hr

theorem setAction (h : g.WellFormed) (id : Nat) (a : Option Action) :
    { g with actions := g.actions.setIfInBounds id a }.WellFormed :=
  { h with size_actions := by rw [Array.size_setIfInBounds]; exact h.size_actions }

theorem setInitial (h : g.WellFormed) (text : String) : (g.setInitial text).WellFormed :=
  { h.internWord text with knows_initial := h.knows_internWord text }

theorem pushRule (h : g.WellFormed) {w : Word} (hw : g.Knows w) (id : Nat) :
    { g with rules := g.rules.modify id (·.push w) }.WellFormed := by
  refine { h with size_rules := by rw [Array.size_modify]; exact h.size_rules, knows_rules := ?_ }
  intro ws hws v hv
  obtain ⟨i, hi, rfl⟩ := Array.mem_iff_getElem.mp hws
  rw [Array.size_modify] at hi
  have hmem : g.rules[i] ∈ g.rules := Array.getElem_mem hi
  rw [Array.getElem_modify] at hv
  split at hv
  · rcases Array.mem_push.mp hv with hold | rfl
    · exact h.knows_rules _ hmem v hold
    · exact hw
  · exact h.knows_rules _ hmem v hv

theorem addRule (h : g.WellFormed) (c : Char) (text : String) : (g.addRule c text).WellFormed :=
  ((h.intern c).internWord text).pushRule ((h.intern c).knows_internWord text) _

theorem bind (h : g.WellFormed) (c : Char) (a : Action) : (g.bind c a).2.WellFormed := by
  cases hc : g.action? (g.intern c).1 with
  | some b =>
    rw [bind_of_bound hc]
    exact h.intern c
  | none =>
    rw [bind_of_unbound hc]
    exact (h.intern c).setAction _ _

theorem bindNamed (h : g.WellFormed) (c : Char) (name : String) :
    (g.bindNamed c name).2.WellFormed := by
  unfold Grammar.bindNamed
  split
  · exact h
  · split
    · exact h.bind c _
    · exact h

theorem withAlphabet_self (h : g.WellFormed) : g.withAlphabet g.alphabet = g := by
  have hsize : g.symbols.length = g.alphabet.size := g.alphabet.length_symbols
  rw [Grammar.withAlphabet, fill_of_size (h.size_actions.trans hsize),
    fill_of_size (h.size_rules.trans hsize)]

/-- A rule whose characters have all been seen leaves everything else as it is. -/
theorem addRule_of_seen (h : g.WellFormed) {c : Char} {text : String}
    (hseen : c :: text.toList ⊆ g.alphabet.chars) :
    g.addRule c text =
      { g with
        rules := g.rules.modify (g.alphabet.symbol c).id
          (·.push (g.alphabet.word text.toList)) } := by
  obtain ⟨hc, htext⟩ := List.cons_subset.mp hseen
  have hinsert : g.alphabet.insert c = g.alphabet :=
    h.consistent.extend_of_seen (List.cons_subset.mpr ⟨hc, List.nil_subset _⟩)
  have hextend : g.alphabet.extend text.toList = g.alphabet := h.consistent.extend_of_seen htext
  simp only [Grammar.addRule, Grammar.intern, Grammar.internWord, hinsert, h.withAlphabet_self, hextend]

end WellFormed

end Grammar

/-! ## Requests -/

/-- The characters that a request brings to the alphabet.  A name that no action has keeps its
character out. -/
def Request.chars : Request → List Char
  | .intern c => [c]
  | .bind c _ => [c]
  | .bindNamed c name => if (Action.ofName? name).isSome then [c] else []
  | .setInitial text => text.toList
  | .addRule c text => c :: text.toList
  | .setSeed _ => []
  | .reset => []
  | .rewrite _ => []

namespace Store

@[simp] theorem grammar_answerBinding (st : Store) (r : Except GrammarError Symbol × Grammar) :
    (st.answerBinding r).2.grammar = r.2 := by
  rcases r with ⟨_ | _, _⟩ <;> rfl

theorem grammar_rewrite (st : Store) (s : Symbol) :
    (st.serve (.rewrite s)).2.grammar = st.grammar := by
  simp only [serve]
  split <;> rfl

/-- A request leaves the alphabet that its characters make of the one before. -/
theorem alphabet_serve (st : Store) (r : Request) :
    (st.serve r).2.grammar.alphabet = st.grammar.alphabet.extend r.chars := by
  cases r with
  | bind c a => rw [serve, grammar_answerBinding, Grammar.alphabet_bind]; rfl
  | bindNamed c name =>
    rw [serve, grammar_answerBinding, Grammar.bindNamed, Request.chars]
    cases hbound : st.grammar.isBound c with
    | true =>
      -- The character has been seen already, so it does not matter whether the name is known.
      rw [if_pos rfl]
      split
      · exact (Grammar.insert_of_isBound hbound).symm
      · rfl
    | false =>
      rw [if_neg Bool.false_ne_true]
      cases hname : Action.ofName? name with
      | some a => exact st.grammar.alphabet_bind c a
      | none => rfl
  | rewrite s => rw [grammar_rewrite]; rfl
  | _ => rfl

theorem wellFormed_serve {st : Store} (h : st.grammar.WellFormed) (r : Request) :
    (st.serve r).2.grammar.WellFormed := by
  cases r with
  | intern c => exact h.intern c
  | bind c a =>
    rw [serve, grammar_answerBinding]
    exact h.bind c a
  | bindNamed c name =>
    rw [serve, grammar_answerBinding]
    exact h.bindNamed c name
  | setInitial text => exact h.setInitial text
  | addRule c text => exact h.addRule c text
  | setSeed seed => exact h
  | reset => exact h
  | rewrite s =>
    rw [grammar_rewrite]
    exact h

/-- A request adds at most one alternative. -/
theorem size_alternatives_serve_le (st : Store) (r : Request) (s : Symbol) :
    ((st.serve r).2.grammar.alternatives s).size ≤ (st.grammar.alternatives s).size + 1 := by
  cases r with
  | intern c =>
    have hsame : (st.serve (.intern c)).2.grammar.alternatives s = st.grammar.alternatives s :=
      st.grammar.alternatives_withAlphabet _ s
    rw [hsame]
    exact Nat.le_succ _
  | bind c a =>
    rw [serve, grammar_answerBinding, Grammar.alternatives_bind]
    exact Nat.le_succ _
  | bindNamed c name =>
    rw [serve, grammar_answerBinding, Grammar.alternatives_bindNamed]
    exact Nat.le_succ _
  | setInitial text =>
    have hsame : (st.serve (.setInitial text)).2.grammar.alternatives s = st.grammar.alternatives s :=
      st.grammar.alternatives_withAlphabet _ s
    rw [hsame]
    exact Nat.le_succ _
  | addRule c text => exact st.grammar.size_alternatives_addRule_le c text s
  | setSeed seed => exact Nat.le_succ _
  | reset => exact Nat.le_succ _
  | rewrite t =>
    rw [grammar_rewrite]
    exact Nat.le_succ _

theorem answerBinding_known {st : Store} {r : Except GrammarError Symbol × Grammar}
    (h : ∀ s, r.1 = .ok s → s ∈ r.2.symbols) :
    r.2.Knows (st.answerBinding r).1.symbols := by
  rcases r with ⟨error | s, grammar⟩
  · exact fun _ hs => nomatch hs
  · intro t ht
    obtain rfl := List.mem_singleton.mp ht
    exact h _ rfl

/-- The symbols of an answer are symbols of the grammar that the request leaves. -/
theorem answer_known {st : Store} (h : st.grammar.WellFormed) (r : Request) :
    (st.serve r).2.grammar.Knows (st.serve r).1.symbols := by
  cases r with
  | intern c =>
    intro s hs
    obtain rfl := List.mem_singleton.mp hs
    exact h.intern_mem c
  | bind c a =>
    rw [serve, grammar_answerBinding]
    exact answerBinding_known fun _ => h.bind_mem
  | bindNamed c name =>
    rw [serve, grammar_answerBinding]
    exact answerBinding_known fun _ => h.bindNamed_mem
  | rewrite s =>
    rw [grammar_rewrite, serve]
    split
    · rename_i hw
      exact h.rewrite?_known hw
    · exact fun _ hs => nomatch hs
  | _ => exact fun _ hs => nomatch hs

/-! ## Histories -/

theorem alphabet_run (st : Store) (rs : List Request) :
    (st.run rs).grammar.alphabet = st.grammar.alphabet.extend (rs.flatMap Request.chars) := by
  induction rs generalizing st with
  | nil => rfl
  | cons r rs ih =>
    have hrun : st.run (r :: rs) = (st.serve r).2.run rs := rfl
    rw [hrun, ih, alphabet_serve, List.flatMap_cons, Alphabet.extend, Alphabet.extend, Alphabet.extend,
      List.foldl_append]

theorem size_alternatives_run_le (st : Store) (rs : List Request) (s : Symbol) :
    ((st.run rs).grammar.alternatives s).size ≤ (st.grammar.alternatives s).size + rs.length := by
  induction rs generalizing st with
  | nil => exact Nat.le_refl _
  | cons r rs ih =>
    have hrun : st.run (r :: rs) = (st.serve r).2.run rs := rfl
    have hrest := ih (st.serve r).2
    have hserve := st.size_alternatives_serve_le r s
    rw [hrun, List.length_cons]
    omega

theorem wellFormed_run {st : Store} (h : st.grammar.WellFormed) (rs : List Request) :
    (st.run rs).grammar.WellFormed := by
  induction rs generalizing st with
  | nil => exact h
  | cons r rs ih => exact ih (wellFormed_serve h r)

theorem symbols_prefix_run (st : Store) (rs : List Request) :
    st.grammar.symbols <+: (st.run rs).grammar.symbols := by
  rw [Grammar.symbols, Grammar.symbols, alphabet_run]
  exact st.grammar.alphabet.symbols_prefix_extend _

/-- Whatever an empty store has been asked for, its symbols are those of the distinct characters in
the order they were first seen, each at its id, and ids fit into 32 bits; exactly they are found by
their characters; there is a slot for the action and one for the alternatives of each, and all words
of the grammar hold symbols that stand at their ids, so that every look-up by an id is in range.
From then on the symbols only grow at the end, and a symbol that has been handed out keeps its id, its
character and its slots. -/
theorem tables_in_step (source : Source) (rs : List Request) :
    let st := ({ source } : Store).run rs
    let g := st.grammar
    g.symbols.map Symbol.char = (rs.flatMap Request.chars).eraseDups ∧
      (g.symbols.map Symbol.char).Nodup ∧
      (∀ (i : Nat) (s : Symbol), g.symbols[i]? = some s → s.id = i) ∧
      g.symbols.length < Number.twoTo 32 ∧
      (∀ c s, g.symbol? c = some s ↔ s ∈ g.symbols ∧ s.char = c) ∧
      g.actions.size = g.symbols.length ∧
      g.rules.size = g.symbols.length ∧
      (∀ w ∈ g.words, ∀ s ∈ w, g.symbols[s.id]? = some s ∧
        s.id < g.actions.size ∧ s.id < g.rules.size ∧
        ∀ rounds, s.id < (g.tableAfter rounds (Array.replicate g.alphabet.size 1)).size) ∧
      ∀ later : List Request,
        let g' := (st.run later).grammar
        g.symbols <+: g'.symbols ∧
          (∀ s ∈ g.symbols, g'.symbols[s.id]? = some s ∧ g'.symbol? s.char = some s ∧
            s.id < g'.actions.size ∧ s.id < g'.rules.size) ∧
          ∀ r, ∀ s ∈ ((st.run later).serve r).1.symbols,
            s ∈ ((st.run later).serve r).2.grammar.symbols := by
  intro st g
  have hg : g.WellFormed := wellFormed_run Grammar.wellFormed_empty rs
  have hchars : g.symbols.map Symbol.char = (rs.flatMap Request.chars).eraseDups := by
    have halphabet : g.alphabet = Alphabet.extend {} (rs.flatMap Request.chars) :=
      alphabet_run _ rs
    have hextend := Alphabet.consistent_empty.chars_extend (rs.flatMap Request.chars)
    rwa [← halphabet] at hextend
  refine ⟨hchars, hg.consistent.nodup, fun _ _ => hg.consistent.id_eq, ?_,
    fun _ _ => hg.consistent.symbol?_eq_some, hg.size_actions, hg.size_rules, ?_, ?_⟩
  · rw [Grammar.symbols, Alphabet.length_symbols]
    exact hg.consistent.size_lt
  · intro w hw s hs
    have hmem : s ∈ g.symbols := hg.knows_words hw s hs
    have hslots := hg.id_lt hmem
    refine ⟨hg.consistent.getElem?_id hmem, hslots.1, hslots.2, fun rounds => ?_⟩
    rw [g.size_tableAfter rounds Array.size_replicate]
    exact hg.consistent.id_lt hmem
  · intro later g'
    -- The later grammar is one that requests have made as well.
    have hg' : g'.WellFormed := wellFormed_run hg later
    have hsub : g.symbols <+: g'.symbols := symbols_prefix_run st later
    refine ⟨hsub, ?_, fun r => answer_known hg' r⟩
    intro s hs
    have hmem : s ∈ g'.symbols := hsub.subset hs
    exact ⟨hg'.consistent.getElem?_id hmem, hg'.consistent.symbol?_eq_some.mpr ⟨hmem, rfl⟩,
      hg'.id_lt hmem⟩

end Store

/-! ## Grammars that have been built -/

/-- A grammar that requests have made of the empty one. -/
def Grammar.Built (g : Grammar) : Prop :=
  ∃ (source : Source) (rs : List Request), (({ source } : Store).run rs).grammar = g

theorem Grammar.Built.wellFormed {g : Grammar} (h : g.Built) : g.WellFormed := by
  obtain ⟨source, rs, rfl⟩ := h
  exact Store.wellFormed_run Grammar.wellFormed_empty rs

end LSystem
