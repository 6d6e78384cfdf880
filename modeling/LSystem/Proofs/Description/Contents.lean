import LSystem.Proofs.Description.Loading

/-!
# What a loaded grammar holds

A grammar that a description describes gives each of its questions the answer of the description:
what a character does, what may replace it, which letters there are and in which order, and which of
them never do anything.  All of it is read off `DescribedBy`, for any overlap of the sections.
-/

namespace LSystem

open LSystem.Random (Source)

namespace Grammar

theorem mem_chars_inert_iff {g : Grammar} (h : g.WellFormed) {c : Char} :
    c ∈ g.inert.map Symbol.char ↔
      c ∈ g.alphabet.chars ∧ g.actionOf? c = none ∧ g.textsOf c = [] := by
  have hmeans (s : Symbol) (hs : s ∈ g.symbols) :
      ((g.action? s).isNone && g.isTerminal s) = true ↔
        g.actionOf? s.char = none ∧ g.textsOf s.char = [] := by
    rw [h.actionOf?_char hs, h.textsOf_char hs, List.map_eq_nil_iff, Array.toList_eq_nil_iff,
      Bool.and_eq_true, Option.isNone_iff_eq_none, isTerminal, Array.isEmpty_iff]
  rw [inert, Alphabet.chars, List.mem_map, List.mem_map]
  constructor
  · rintro ⟨s, hs, rfl⟩
    obtain ⟨hmem, hnothing⟩ := List.mem_filter.mp hs
    exact ⟨⟨s, hmem, rfl⟩, (hmeans s hmem).mp hnothing⟩
  · rintro ⟨⟨s, hmem, rfl⟩, hnothing⟩
    exact ⟨s, List.mem_filter.mpr ⟨hmem, (hmeans s hmem).mpr hnothing⟩, rfl⟩

theorem inert_sublist (g : Grammar) :
    (g.inert.map Symbol.char).Sublist (g.symbols.map Symbol.char) :=
  List.filter_sublist.map _

theorem notices_eq {α : Type} (g : Grammar) :
    g.notices (α := α) = if g.inert = [] then [] else [.inert (Word.text g.inert)] := by
  unfold notices
  split
  · rename_i hinert
    rw [if_pos hinert]
  · rename_i hinert
    rw [if_neg fun hnil => hinert hnil]

namespace DescribedBy

variable {actions : List (String × String)} {initial : String}
  {rules : List (String × List String)} {g : Grammar}

theorem chars_eq (h : g.DescribedBy actions initial rules) :
    g.alphabet.chars =
      (actions.flatMap (fun e => e.1.toList) ++ initial.toList ++ ruleChars rules).eraseDups := by
  rw [h.alphabet_eq]
  exact Alphabet.consistent_empty.chars_extend _

theorem mem_chars_iff (h : g.DescribedBy actions initial rules) {c : Char} :
    c ∈ g.alphabet.chars ↔ (∃ e ∈ actions, c ∈ e.1.toList) ∨ c ∈ initial.toList ∨
      ∃ rule ∈ rules, ∃ text ∈ rule.2, c ∈ rule.1.toList ∨ c ∈ text.toList := by
  rw [h.chars_eq, List.mem_eraseDups, List.mem_append, List.mem_append, ruleChars, List.mem_flatMap,
    List.mem_flatMap, or_assoc]
  simp only [List.mem_flatMap, List.mem_append]

theorem actionOf?_eq_none_iff (h : g.DescribedBy actions initial rules) {c : Char} :
    g.actionOf? c = none ↔ String.singleton c ∉ actions.map Prod.fst := by
  rw [← h.isSome_actionOf?_iff, Option.not_isSome_iff_eq_none]

/-- A character is terminal unless some entry holds a text for it. -/
theorem textsOf_eq_nil_iff (h : g.DescribedBy actions initial rules) {c : Char} :
    g.textsOf c = [] ↔ ∀ texts, (String.singleton c, texts) ∈ rules → texts = [] := by
  constructor
  · intro hnil texts hmem
    exact (h.textsOf_eq hmem).symm.trans hnil
  · intro hempty
    by_cases hkey : String.singleton c ∈ rules.map Prod.fst
    · obtain ⟨⟨key, texts⟩, hmem, rfl⟩ := List.mem_map.mp hkey
      exact (h.textsOf_eq hmem).trans (hempty texts hmem)
    · exact h.textsOf_eq_nil hkey

/-- The keys bring no letter that does nothing: one of an action acts, and one of a rule joins only
with a text that may replace it. -/
theorem mem_inert_iff (h : g.DescribedBy actions initial rules)
    (hactions : ∀ e ∈ actions, e.1.length = 1) (hrules : ∀ e ∈ rules, e.1.length = 1) {c : Char} :
    c ∈ g.inert.map Symbol.char ↔
      (c ∈ initial.toList ∨ ∃ rule ∈ rules, ∃ text ∈ rule.2, c ∈ text.toList) ∧
        String.singleton c ∉ actions.map Prod.fst ∧
        ∀ texts, (String.singleton c, texts) ∈ rules → texts = [] := by
  have hkey {key : String} (hlength : key.length = 1) (hc : c ∈ key.toList) :
      key = String.singleton c := by
    obtain ⟨d, rfl⟩ := exists_eq_singleton hlength
    rw [String.toList_singleton, List.mem_singleton] at hc
    rw [hc]
  rw [mem_chars_inert_iff h.wellFormed, h.mem_chars_iff, h.actionOf?_eq_none_iff,
    h.textsOf_eq_nil_iff]
  constructor
  · rintro ⟨⟨e, he, hc⟩ | hc | ⟨rule, hrule, text, htext, hc | hc⟩, hact, htexts⟩
    · exact absurd (List.mem_map.mpr ⟨e, he, hkey (hactions e he) hc⟩) hact
    · exact ⟨Or.inl hc, hact, htexts⟩
    · have hnil := htexts rule.2 (hkey (hrules rule hrule) hc ▸ hrule)
      rw [hnil] at htext
      nomatch htext
    · exact ⟨Or.inr ⟨rule, hrule, text, htext, hc⟩, hact, htexts⟩
  · rintro ⟨hc | ⟨rule, hrule, text, htext, hc⟩, hact, htexts⟩
    · exact ⟨Or.inr (Or.inl hc), hact, htexts⟩
    · exact ⟨Or.inr (Or.inr ⟨rule, hrule, text, htext, Or.inr hc⟩), hact, htexts⟩

end DescribedBy

end Grammar

namespace Description

theorem toNat_ofInt (n : Int) : ((UInt64.ofInt n).toNat : Int) = n % Number.twoTo 64 := by
  have htwo : (2 ^ 64 : Int) = Number.twoTo 64 := by decide
  have hnonneg : 0 ≤ n % Number.twoTo 64 := Int.emod_nonneg n (by decide)
  have hlt : (n % Number.twoTo 64).toNat < 2 ^ 64 := by
    have hmod := Int.emod_lt_of_pos n (show 0 < (Number.twoTo 64 : Int) by decide)
    have htop : (Number.twoTo 64 : Int) = 18446744073709551616 := by decide
    omega
  rw [UInt64.ofInt, htwo, UInt64.toNat_ofNat_of_lt' hlt, Int.toNat_of_nonneg hnonneg]

/-- A grammar that loads is exactly the one that is described.  Its sections are all there; a
character has the action of its entry, and without an entry none; the initial word and the texts of
every rule read as they are written, in their order and with their repetitions, and what has no text
to replace it is terminal; words hold the symbols that their characters have in the alphabet.  The
letters are the characters of the actions, of the initial word and of the rules with texts as they
are first met, and the letters that are told of are those of the initial word and the texts that have
neither an action nor a text to replace them.  A seed is taken modulo the range of words. -/
theorem grammar_as_described {d : Description} {g : Grammar} (hload : d.grammar = .ok g) :
    ∃ actions initial rules,
      d.actions = some actions ∧ d.initial = some initial ∧ d.rules = some rules ∧
      (∀ key name, (key, name) ∈ actions → ∃ c a, key = String.singleton c ∧
        Action.ofName? name = some a ∧ g.actionOf? c = some a) ∧
      (∀ c, String.singleton c ∉ actions.map Prod.fst → g.actionOf? c = none) ∧
      Word.text g.initial = initial ∧
      (∀ key texts, (key, texts) ∈ rules → ∃ c, key = String.singleton c ∧ g.textsOf c = texts) ∧
      (∀ c, (∀ texts, (String.singleton c, texts) ∈ rules → texts = []) →
        g.textsOf c = [] ∧ ∀ s, g.symbol? c = some s → g.isTerminal s = true) ∧
      (∀ w ∈ g.words, ∀ s ∈ w, g.symbol? s.char = some s) ∧
      g.symbols.map Symbol.char =
        (actions.flatMap (fun e => e.1.toList) ++ initial.toList ++ ruleChars rules).eraseDups ∧
      (g.inert.map Symbol.char).Sublist (g.symbols.map Symbol.char) ∧
      (g.inert.map Symbol.char).Nodup ∧
      (∀ c, c ∈ g.inert.map Symbol.char ↔
        (c ∈ initial.toList ∨ ∃ rule ∈ rules, ∃ text ∈ rule.2, c ∈ text.toList) ∧
          String.singleton c ∉ actions.map Prod.fst ∧
          ∀ texts, (String.singleton c, texts) ∈ rules → texts = []) ∧
      (∀ seed, (d.figure seed).notices =
        if g.inert = [] then [] else [.inert (Word.text g.inert)]) ∧
      ∀ n, d.seed = some n → ∃ word, d.seedWord? = some word ∧
        (word.toNat : Int) = n % Number.twoTo 64 ∧
        ∀ seed f, (d.figure seed).value = .ok f → f.source = .ofSeed word := by
  obtain ⟨hchecks, h⟩ := d.guarded_grammar.ok hload
  rw [grammarChecks, List.forall_mem_cons, List.forall_mem_append, List.forall_mem_cons,
    List.forall_mem_cons, holds_actionsChecks_iff, holds_rulesChecks_iff] at hchecks
  obtain ⟨hactions, ⟨hkeys, -, -⟩, hinitial, hrules, hkeys', -⟩ := hchecks
  obtain ⟨actions, hactions⟩ := Option.isSome_iff_exists.mp hactions
  obtain ⟨initial, hinitial⟩ := Option.isSome_iff_exists.mp hinitial
  obtain ⟨rules, hrules⟩ := Option.isSome_iff_exists.mp hrules
  rw [hactions, Option.getD_some] at h hkeys
  rw [hrules, Option.getD_some] at h hkeys'
  rw [hinitial, Option.getD_some] at h
  have hwell := h.wellFormed
  refine ⟨actions, initial, rules, hactions, hinitial, hrules, ?_, ?_, h.text_initial, ?_, ?_, ?_,
    h.chars_eq, g.inert_sublist, g.inert_sublist.nodup hwell.consistent.nodup,
    fun c => h.mem_inert_iff hkeys hkeys', ?_, ?_⟩
  · intro key name hmem
    obtain ⟨c, rfl⟩ := exists_eq_singleton (hkeys _ hmem)
    obtain ⟨a, ha⟩ := Option.isSome_iff_exists.mp (h.isSome_ofName? _ hmem)
    exact ⟨c, a, rfl, ha, h.actionOf?_iff.mpr ⟨name, hmem, ha⟩⟩
  · exact fun c => h.actionOf?_eq_none_iff.mpr
  · intro key texts hmem
    obtain ⟨c, rfl⟩ := exists_eq_singleton (hkeys' _ hmem)
    exact ⟨c, rfl, h.textsOf_eq hmem⟩
  · intro c hempty
    have hnil := h.textsOf_eq_nil_iff.mpr hempty
    refine ⟨hnil, fun s hs => ?_⟩
    obtain ⟨hmem, rfl⟩ := hwell.consistent.symbol?_eq_some.mp hs
    rw [hwell.textsOf_char hmem, List.map_eq_nil_iff, Array.toList_eq_nil_iff] at hnil
    rw [Grammar.isTerminal, hnil]
    rfl
  · intro w hw s hs
    exact hwell.consistent.symbol?_char (hwell.knows_words hw s hs)
  · intro seed
    rw [← g.notices_eq, figure, hload]
  · intro n hn
    refine ⟨UInt64.ofInt n, congrArg (Option.map _) hn, toNat_ofInt n, fun seed f hf => ?_⟩
    obtain ⟨-, -, hsource⟩ := (d.guarded_figure seed).ok hf
    rw [hsource, seedWord?, hn]
    rfl

/-- Actions, words and rules that share their characters: a rule without texts, repeated texts, a
letter beyond the ASCII characters and letters that do nothing. -/
def overlapping : Description where
  seed := some (-1)
  actions := some [("F", "draw"), ("+", " TurnL ")]
  initial := some "FXé"
  rules := some [("F", ["F+F", "", "F+F"]), ("X", []), ("é", ["Y"])]

theorem grammar_as_described_overlapping :
    ∃ g, overlapping.grammar = .ok g ∧
      (g.actionOf? '+' = some .turnLeft ∧ g.actionOf? 'X' = none) ∧
      Word.text g.initial = "FXé" ∧
      (g.textsOf 'F' = ["F+F", "", "F+F"] ∧ g.textsOf 'X' = []) ∧
      g.symbols.map Symbol.char = ['F', '+', 'X', 'é', 'Y'] ∧
      ('X' ∈ g.inert.map Symbol.char ∧ 'é' ∉ g.inert.map Symbol.char) ∧
      ∃ word, overlapping.seedWord? = some word ∧ word.toNat = 18446744073709551615 := by
  have hload : ∃ g, overlapping.grammar = .ok g := ⟨_, rfl⟩
  obtain ⟨g, hg⟩ := hload
  obtain ⟨_, _, _, ⟨⟩, ⟨⟩, ⟨⟩, hacts, hrest, hinitial, hrules, hterminal, -, hsymbols, -, -, hinert,
    -, hseed⟩ := grammar_as_described hg
  obtain ⟨c, a, hc, ha, hplus⟩ := hacts "+" " TurnL " (by decide)
  obtain ⟨c', hc', hF⟩ := hrules "F" ["F+F", "", "F+F"] (by decide)
  obtain ⟨word, hword, hmod, -⟩ := hseed (-1) rfl
  have hcPlus : '+' = c := by
    simpa using congrArg String.toList hc
  have hcF : 'F' = c' := by
    simpa using congrArg String.toList hc'
  have haPlus : Action.turnLeft = a := Option.some.inj (.trans (by decide +kernel) ha)
  subst hcPlus hcF haPlus
  have hempty : ∀ e ∈ [("F", ["F+F", "", "F+F"]), ("X", []), ("é", ["Y"])],
      e.1 = String.singleton 'X' → e.2 = [] := by
    decide
  have hX : ∀ texts, (String.singleton 'X', texts) ∈
      [("F", ["F+F", "", "F+F"]), ("X", []), ("é", ["Y"])] → texts = [] :=
    fun texts hmem => hempty _ hmem rfl
  have hé : ¬ ∀ texts, (String.singleton 'é', texts) ∈
      [("F", ["F+F", "", "F+F"]), ("X", []), ("é", ["Y"])] → texts = [] :=
    fun h => absurd (h ["Y"] (by decide)) (List.cons_ne_nil _ _)
  refine ⟨g, hg, ⟨hplus, hrest 'X' (by decide)⟩, hinitial, ⟨hF, (hterminal 'X' hX).1⟩,
    hsymbols.trans (by decide), ⟨(hinert 'X').mpr ⟨Or.inl (by decide), by decide, hX⟩, ?_⟩, word,
    hword, ?_⟩
  · exact fun h => hé ((hinert 'é').mp h).2.2
  · have htop : (-1 : Int) % Number.twoTo 64 = 18446744073709551615 := by decide
    omega

end Description

end LSystem
