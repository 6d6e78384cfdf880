import LSystem.Proofs.Grammar.Store

/-!
# What a grammar says of characters

Seen from outside, a grammar gives a character an action and some texts that may replace it; that both
are found by way of an id does not show.  In a well-formed grammar a new letter has neither, binding
gives an action to one character and a rule gives one more text to one character, and all the others
keep what they have.  Two grammars that say the same of all characters differ in their ids at most,
since a word is known by its text (`WellFormed.word_text`).
-/

namespace LSystem.Grammar

/-- The action of a character. -/
def actionOf? (g : Grammar) (c : Char) : Option Action := (g.symbol? c).elim none g.action?

/-- The texts that may replace a character, in the order they were added. -/
def textsOf (g : Grammar) (c : Char) : List String :=
  (g.symbol? c).elim [] fun s => (g.alternatives s).toList.map Word.text

theorem isBound_eq (g : Grammar) (c : Char) : g.isBound c = (g.actionOf? c).isSome := by
  unfold isBound actionOf?
  cases g.symbol? c <;> rfl

-- The rules have no part in what actions there are.
theorem actionOf?_congr {g g' : Grammar} (halphabet : g.alphabet = g'.alphabet)
    (hactions : g.actions = g'.actions) (c : Char) : g.actionOf? c = g'.actionOf? c := by
  have hsame : g.action? = g'.action? := funext fun s => by rw [action?, action?, hactions]
  rw [actionOf?, actionOf?, symbol?, symbol?, halphabet, hsame]

theorem toList_text (w : Word) : (Word.text w).toList = w.map Symbol.char := String.toList_ofList

theorem action?_of_size_le {g : Grammar} {s : Symbol} (h : g.actions.size ≤ s.id) :
    g.action? s = none := by
  rw [action?, Array.getD_eq_getD_getElem?, Array.getElem?_eq_none h, Option.getD_none]

theorem alternatives_of_size_le {g : Grammar} {s : Symbol} (h : g.rules.size ≤ s.id) :
    g.alternatives s = #[] := by
  rw [alternatives, Array.getD_eq_getD_getElem?, Array.getElem?_eq_none h, Option.getD_none]

namespace WellFormed

variable {g : Grammar}

/-! ## Symbols and their characters -/

theorem actionOf?_char (h : g.WellFormed) {s : Symbol} (hs : s ∈ g.symbols) :
    g.actionOf? s.char = g.action? s := by
  rw [actionOf?, symbol?, h.consistent.symbol?_char hs, Option.elim_some]

theorem textsOf_char (h : g.WellFormed) {s : Symbol} (hs : s ∈ g.symbols) :
    g.textsOf s.char = (g.alternatives s).toList.map Word.text := by
  rw [textsOf, symbol?, h.consistent.symbol?_char hs, Option.elim_some]

/-- A word of the grammar is the word of its text. -/
theorem word_text (h : g.WellFormed) {w : Word} (hw : g.Knows w) :
    g.alphabet.word (Word.text w).toList = w := by
  rw [toList_text, Alphabet.word, List.map_map]
  exact (List.map_congr_left fun s hs => h.consistent.symbol_char (hw s hs)).trans w.map_id

theorem text_word (h : g.WellFormed) (text : String) :
    Word.text (g.alphabet.word text.toList) = text := by
  have hchars : (g.alphabet.word text.toList).map Symbol.char = text.toList := by
    rw [Alphabet.word, List.map_map]
    exact (List.map_congr_left fun c _ => h.consistent.char_symbol c).trans (List.map_id _)
  rw [Word.text, hchars, String.ofList_toList]

theorem size_le_id_fresh (h : g.WellFormed) (c : Char) :
    g.actions.size ≤ (g.alphabet.fresh c).id ∧ g.rules.size ≤ (g.alphabet.fresh c).id := by
  rw [h.consistent.fresh_eq, h.size_actions, h.size_rules, symbols, Alphabet.length_symbols]
  exact ⟨Nat.le_refl _, Nat.le_refl _⟩

/-- The symbol of a character acts as the character does, also if the character is no letter. -/
theorem action?_symbol (h : g.WellFormed) (c : Char) :
    g.action? (g.alphabet.symbol c) = g.actionOf? c := by
  rw [actionOf?, symbol?, Alphabet.symbol]
  cases g.alphabet.symbol? c with
  | none => exact action?_of_size_le (h.size_le_id_fresh c).1
  | some s => rfl

theorem alternatives_symbol (h : g.WellFormed) (c : Char) :
    (g.alternatives (g.alphabet.symbol c)).toList =
      (g.textsOf c).map fun text => g.alphabet.word text.toList := by
  rw [textsOf, symbol?, Alphabet.symbol]
  cases g.alphabet.symbol? c with
  | none =>
    rw [Option.getD_none, alternatives_of_size_le (h.size_le_id_fresh c).2]
    rfl
  | some s =>
    have hword (w : Word) (hw : w ∈ (g.alternatives s).toList) :
        g.alphabet.word (Word.text w).toList = w :=
      h.word_text (h.knows_alternative (Array.mem_toList_iff.mp hw))
    rw [Option.elim_some, Option.getD_some, List.map_map]
    exact ((List.map_congr_left hword).trans (List.map_id _)).symm

/-! ## New letters -/

theorem actionOf?_extend (h : g.WellFormed) (cs : List Char) (c : Char) :
    (g.withAlphabet (g.alphabet.extend cs)).actionOf? c = g.actionOf? c := by
  have hbehind (s : Symbol) (hs : g.alphabet.size ≤ s.id) : g.action? s = none := by
    refine action?_of_size_le ?_
    rwa [h.size_actions, symbols, Alphabet.length_symbols]
  have hsame : (g.withAlphabet (g.alphabet.extend cs)).action? = g.action? :=
    funext fun s => g.action?_withAlphabet _ s
  rw [actionOf?, hsame]
  exact h.consistent.elim_symbol?_extend cs hbehind c

theorem textsOf_extend (h : g.WellFormed) (cs : List Char) (c : Char) :
    (g.withAlphabet (g.alphabet.extend cs)).textsOf c = g.textsOf c := by
  have hbehind (s : Symbol) (hs : g.alphabet.size ≤ s.id) :
      (g.alternatives s).toList.map Word.text = [] := by
    rw [alternatives_of_size_le, List.map_nil]
    rwa [h.size_rules, symbols, Alphabet.length_symbols]
  rw [textsOf]
  simp only [alternatives_withAlphabet]
  exact h.consistent.elim_symbol?_extend cs hbehind c

/-! ## One slot -/

theorem id_ne (h : g.WellFormed) {s t : Symbol} (hs : s ∈ g.symbols) (ht : t ∈ g.symbols)
    (hchar : t.char ≠ s.char) : s.id ≠ t.id :=
  fun hid => hchar (congrArg Symbol.char (h.consistent.eq_of_id_eq hs ht hid)).symm

theorem actionOf?_setAction (h : g.WellFormed) {s : Symbol} (hs : s ∈ g.symbols) (a : Action)
    (c : Char) :
    { g with actions := g.actions.setIfInBounds s.id (some a) }.actionOf? c =
      if c = s.char then some a else g.actionOf? c := by
  have hslot := (h.id_lt hs).1
  by_cases hc : c = s.char
  · subst hc
    rw [if_pos rfl, actionOf?, symbol?, h.consistent.symbol?_char hs, Option.elim_some, action?,
      Array.getD_eq_getD_getElem?, Array.getElem?_setIfInBounds_self_of_lt hslot, Option.getD_some]
  · rw [if_neg hc, actionOf?, actionOf?]
    change (g.symbol? c).elim _ _ = (g.symbol? c).elim _ _
    cases ht : g.symbol? c with
    | none => rfl
    | some t =>
      obtain ⟨hmem, rfl⟩ := h.consistent.symbol?_eq_some.mp ht
      have hid : s.id ≠ t.id := h.id_ne hs hmem hc
      simp only [Option.elim_some, action?, Array.getD_eq_getD_getElem?,
        Array.getElem?_setIfInBounds_ne hid]

theorem textsOf_pushRule (h : g.WellFormed) {s : Symbol} (hs : s ∈ g.symbols) (w : Word)
    (c : Char) :
    { g with rules := g.rules.modify s.id (·.push w) }.textsOf c =
      if c = s.char then g.textsOf c ++ [Word.text w] else g.textsOf c := by
  have hslot := (h.id_lt hs).2
  by_cases hc : c = s.char
  · subst hc
    rw [if_pos rfl, textsOf, textsOf, symbol?, symbol?, h.consistent.symbol?_char hs]
    simp only [Option.elim_some, alternatives, Array.getD_eq_getD_getElem?, Array.getElem?_modify,
      Array.getElem?_eq_getElem hslot, if_true, Option.map_some, Option.getD_some,
      Array.toList_push, List.map_append, List.map_singleton]
  · rw [if_neg hc, textsOf, textsOf]
    change (g.symbol? c).elim _ _ = (g.symbol? c).elim _ _
    cases ht : g.symbol? c with
    | none => rfl
    | some t =>
      obtain ⟨hmem, rfl⟩ := h.consistent.symbol?_eq_some.mp ht
      have hid : s.id ≠ t.id := h.id_ne hs hmem hc
      simp only [Option.elim_some, alternatives, Array.getD_eq_getD_getElem?, Array.getElem?_modify,
        if_neg hid]

/-! ## Binding -/

theorem char_intern (h : g.WellFormed) (c : Char) : (g.intern c).1.char = c :=
  h.consistent.char_symbol c

theorem symbol?_intern (h : g.WellFormed) (c : Char) :
    (g.intern c).2.symbol? c = some (g.intern c).1 := by
  have hmem := h.intern_mem c
  have hsome := (h.intern c).consistent.symbol?_char hmem
  rwa [h.char_intern] at hsome

theorem action?_intern_eq (h : g.WellFormed) (c : Char) :
    g.action? (g.intern c).1 = g.actionOf? c := by
  have hextend := h.actionOf?_extend [c] c
  rw [actionOf?] at hextend
  change ((g.intern c).2.symbol? c).elim none (g.intern c).2.action? = _ at hextend
  rwa [h.symbol?_intern, Option.elim_some, action?_intern] at hextend

theorem bind_of_free (h : g.WellFormed) {c : Char} (hc : g.actionOf? c = none) (a : Action) :
    g.bind c a = (.ok (g.intern c).1,
      { (g.intern c).2 with
        actions := (g.intern c).2.actions.setIfInBounds (g.intern c).1.id (some a) }) :=
  bind_of_unbound (h.action?_intern_eq c ▸ hc) a

/-- Only the character that is bound gets an action. -/
theorem actionOf?_bind (h : g.WellFormed) {c : Char} (hc : g.actionOf? c = none) (a : Action)
    (d : Char) : (g.bind c a).2.actionOf? d = if d = c then some a else g.actionOf? d := by
  rw [h.bind_of_free hc, (h.intern c).actionOf?_setAction (h.intern_mem c), h.char_intern]
  exact congrArg (ite _ _) (h.actionOf?_extend [c] d)

theorem textsOf_bind (h : g.WellFormed) {c : Char} (hc : g.actionOf? c = none) (a : Action)
    (d : Char) : (g.bind c a).2.textsOf d = g.textsOf d := by
  rw [h.bind_of_free hc]
  exact h.textsOf_extend [c] d

/-- That a character has an action is seen before the name is. -/
theorem bindNamed_eq (h : g.WellFormed) (c : Char) (name : String) :
    g.bindNamed c name =
      if (g.actionOf? c).isSome then (.error (.duplicateAction c), g)
      else match Action.ofName? name with
        | some a => (.ok (g.intern c).1, (g.bind c a).2)
        | none => (.error (.unknownAction name), g) := by
  unfold Grammar.bindNamed
  rw [isBound_eq]
  split
  · rfl
  · rename_i hc
    cases Action.ofName? name with
    | none => rfl
    | some a =>
      have hfree : g.actionOf? c = none := by simpa using hc
      dsimp only
      rw [h.bind_of_free hfree]

/-! ## The initial word and rules -/

theorem text_setInitial (h : g.WellFormed) (text : String) :
    Word.text (g.setInitial text).initial = text := (h.extend text.toList).text_word text

/-- Only the character that is replaced gets one more text. -/
theorem textsOf_addRule (h : g.WellFormed) (c : Char) (text : String) (d : Char) :
    (g.addRule c text).textsOf d = if d = c then g.textsOf d ++ [text] else g.textsOf d := by
  have hmem : (g.intern c).1 ∈ ((g.intern c).2.internWord text).2.symbols :=
    ((g.intern c).2.alphabet.symbols_prefix_extend text.toList).subset (h.intern_mem c)
  have htexts : ((g.intern c).2.internWord text).2.textsOf d = g.textsOf d :=
    ((h.intern c).textsOf_extend text.toList d).trans (h.textsOf_extend [c] d)
  have hword : Word.text ((g.intern c).2.internWord text).1 = text :=
    ((h.intern c).internWord text).text_word text
  have hpush := ((h.intern c).internWord text).textsOf_pushRule hmem
    ((g.intern c).2.internWord text).1 d
  rw [h.char_intern, htexts, hword] at hpush
  exact hpush

theorem actionOf?_addRule (h : g.WellFormed) (c : Char) (text : String) (d : Char) :
    (g.addRule c text).actionOf? d = g.actionOf? d := by
  have hrule : (g.addRule c text).actionOf? d =
      ((g.intern c).2.internWord text).2.actionOf? d := by
    refine actionOf?_congr ?_ ?_ d
    · rfl
    · rfl
  have hword : ((g.intern c).2.internWord text).2.actionOf? d = (g.intern c).2.actionOf? d :=
    (h.intern c).actionOf?_extend text.toList d
  exact hrule.trans (hword.trans (h.actionOf?_extend [c] d))

end WellFormed

end LSystem.Grammar
