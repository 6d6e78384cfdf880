import LSystem.Proofs.Description.Contents
import LSystem.Proofs.Figure.Alike
import LSystem.Proofs.Walk.Renaming
import Mathlib.Data.Set.Function

/-!
# Letters and the order of entries

Two descriptions that differ in their letters and in the order of their entries become grammars with
different alphabets and different ids.  Still these grammars say the same of characters, up to the
renaming, as entries are found by their keys; so one walk goes like the other and the figures look
alike (`figure_rename_alike`).  A renaming has to keep apart only the letters that are there.
-/

namespace LSystem

/-! ## Renaming -/

theorem map_singleton (π : Char → Char) (c : Char) :
    String.map π (String.singleton c) = String.singleton (π c) := by
  rw [← String.toList_inj, String.toList_map, String.toList_singleton, String.toList_singleton,
    List.map_singleton]

namespace Description

/-- An entry with another key, and with `F` applied to what it holds. -/
def renameEntry {β : Type} (π : Char → Char) (F : β → β) (e : String × β) : String × β :=
  (String.map π e.1, F e.2)

/-- The description with other characters.  The names of actions stay. -/
def rename (π : Char → Char) (d : Description) : Description :=
  { d with
    actions := d.actions.map (List.map (renameEntry π id))
    initial := d.initial.map (String.map π)
    rules := d.rules.map (List.map (renameEntry π (List.map (String.map π)))) }

/-- The characters of keys and texts. -/
def letters (d : Description) : List Char :=
  (d.actions.getD []).flatMap (fun e => e.1.toList) ++ (d.initial.getD "").toList ++
    (d.rules.getD []).flatMap fun e => e.1.toList ++ e.2.flatMap String.toList

/-- Descriptions that differ in the order of their entries at most. -/
structure Reordered (d e : Description) : Prop where
  seed : d.seed = e.seed
  parameters : d.parameters = e.parameters
  actions : Option.Rel List.Perm d.actions e.actions
  initial : d.initial = e.initial
  rules : Option.Rel List.Perm d.rules e.rules

section Entries

variable {β : Type} {π : Char → Char} {F : β → β} {entries : List (String × β)}

theorem length_renameEntry (π : Char → Char) (F : β → β) (e : String × β) :
    (renameEntry π F e).1.length = e.1.length := String.length_map

theorem keys_rename (π : Char → Char) (F : β → β) (entries : List (String × β)) :
    (entries.map (renameEntry π F)).map Prod.fst = (entries.map Prod.fst).map (String.map π) := by
  rw [List.map_map, List.map_map]
  rfl

theorem nodup_keys_rename (hlength : ∀ e ∈ entries, e.1.length = 1)
    (hπ : Set.InjOn π {c | ∃ e ∈ entries, c ∈ e.1.toList}) (h : (entries.map Prod.fst).Nodup) :
    ((entries.map (renameEntry π F)).map Prod.fst).Nodup := by
  rw [keys_rename]
  refine List.Nodup.map_on ?_ h
  intro key hkey key' hkey' heq
  obtain ⟨e, he, rfl⟩ := List.mem_map.mp hkey
  obtain ⟨e', he', rfl⟩ := List.mem_map.mp hkey'
  obtain ⟨c, hc⟩ := exists_eq_singleton (hlength e he)
  obtain ⟨c', hc'⟩ := exists_eq_singleton (hlength e' he')
  rw [hc, hc', map_singleton, map_singleton, String.singleton_inj] at heq
  rw [hc, hc', hπ ⟨e, he, by simp [hc]⟩ ⟨e', he', by simp [hc']⟩ heq]

/-- The entry of a renamed character is the renamed entry of the character. -/
theorem mem_map_renameEntry_iff {c : Char} (hπ : ∀ e ∈ entries, ∀ d ∈ e.1.toList, π d = π c → d = c)
    {v : β} : (String.singleton (π c), v) ∈ entries.map (renameEntry π F) ↔
      ∃ u, (String.singleton c, u) ∈ entries ∧ F u = v := by
  rw [List.mem_map]
  constructor
  · rintro ⟨⟨key, u⟩, hmem, heq⟩
    obtain ⟨hkey, rfl⟩ := Prod.mk.inj heq
    have hchars := congrArg String.toList hkey
    rw [String.toList_map, String.toList_singleton, List.map_eq_singleton_iff] at hchars
    obtain ⟨d, hd, hdc⟩ := hchars
    have hdc : d = c := hπ _ hmem d (hd ▸ List.mem_singleton.mpr rfl) hdc
    have hsingle : key = String.singleton c := by
      rw [← String.toList_inj, hd, hdc, String.toList_singleton]
    exact ⟨u, hsingle ▸ hmem, rfl⟩
  · rintro ⟨u, hmem, rfl⟩
    exact ⟨_, hmem, Prod.ext (map_singleton π c) rfl⟩

end Entries

/-- The grammar says what the description says. -/
abbrev Describes (d : Description) (g : Grammar) : Prop :=
  g.DescribedBy (d.actions.getD []) (d.initial.getD "") (d.rules.getD [])

/-! ## Loading what is renamed -/

variable {d e : Description} {π : Char → Char}

theorem getD_actions_rename (π : Char → Char) (d : Description) :
    (d.rename π).actions.getD [] = (d.actions.getD []).map (renameEntry π id) :=
  Option.getD_map _ [] d.actions

theorem getD_rules_rename (π : Char → Char) (d : Description) :
    (d.rename π).rules.getD [] =
      (d.rules.getD []).map (renameEntry π (List.map (String.map π))) :=
  Option.getD_map _ [] d.rules

theorem getD_initial_rename (π : Char → Char) (d : Description) :
    (d.rename π).initial.getD "" = String.map π (d.initial.getD "") := by
  rw [rename]
  cases d.initial with
  | none => rw [← String.toList_inj, Option.getD_none, String.toList_map]; rfl
  | some text => rfl

theorem mem_letters {c : Char} : c ∈ d.letters ↔
    (∃ e ∈ d.actions.getD [], c ∈ e.1.toList) ∨ c ∈ (d.initial.getD "").toList ∨
      ∃ e ∈ d.rules.getD [], c ∈ e.1.toList ∨ ∃ text ∈ e.2, c ∈ text.toList := by
  simp only [letters, List.mem_append, List.mem_flatMap, or_assoc]

theorem Valid.rename (hd : d.Valid) (hπ : Set.InjOn π {c | c ∈ d.letters}) :
    (d.rename π).Valid where
  actions_isSome := Option.isSome_map.trans hd.actions_isSome
  initial_isSome := Option.isSome_map.trans hd.initial_isSome
  rules_isSome := Option.isSome_map.trans hd.rules_isSome
  length_action := by
    rw [getD_actions_rename, List.forall_mem_map]
    exact fun e he => (length_renameEntry π id e).trans (hd.length_action e he)
  nodup_actions := by
    rw [getD_actions_rename]
    refine nodup_keys_rename hd.length_action (hπ.mono fun c hc => ?_) hd.nodup_actions
    exact mem_letters.mpr (Or.inl hc)
  ofName_isSome := by
    rw [getD_actions_rename, List.forall_mem_map]
    exact hd.ofName_isSome
  length_rule := by
    rw [getD_rules_rename, List.forall_mem_map]
    exact fun e he => (length_renameEntry π _ e).trans (hd.length_rule e he)
  nodup_rules := by
    rw [getD_rules_rename]
    refine nodup_keys_rename hd.length_rule (hπ.mono fun c ⟨e, he, hc⟩ => ?_) hd.nodup_rules
    exact mem_letters.mpr (Or.inr (Or.inr ⟨e, he, Or.inl hc⟩))
  step := hd.step
  angle := hd.angle
  start := hd.start

theorem isSome_of_rel {β : Type} {r : β → β → Prop} {o p : Option β} (h : Option.Rel r o p) :
    o.isSome = p.isSome := by
  cases h <;> rfl

theorem perm_getD {β : Type} {o p : Option (List β)} (h : Option.Rel List.Perm o p) :
    (o.getD []).Perm (p.getD []) := by
  cases h with
  | some h => exact h
  | none => exact .nil

namespace Reordered

theorem perm_actions (h : Reordered d e) : (d.actions.getD []).Perm (e.actions.getD []) :=
  perm_getD h.actions

theorem perm_rules (h : Reordered d e) : (d.rules.getD []).Perm (e.rules.getD []) :=
  perm_getD h.rules

theorem valid (h : Reordered d e) (hd : d.Valid) : e.Valid where
  actions_isSome := isSome_of_rel h.actions ▸ hd.actions_isSome
  initial_isSome := h.initial ▸ hd.initial_isSome
  rules_isSome := isSome_of_rel h.rules ▸ hd.rules_isSome
  length_action x hx := hd.length_action x (h.perm_actions.mem_iff.mpr hx)
  nodup_actions := (h.perm_actions.map Prod.fst).nodup_iff.mp hd.nodup_actions
  ofName_isSome x hx := hd.ofName_isSome x (h.perm_actions.mem_iff.mpr hx)
  length_rule x hx := hd.length_rule x (h.perm_rules.mem_iff.mpr hx)
  nodup_rules := (h.perm_rules.map Prod.fst).nodup_iff.mp hd.nodup_rules
  step := h.parameters ▸ hd.step
  angle := h.parameters ▸ hd.angle
  start := h.parameters ▸ hd.start

theorem setup_eq (h : Reordered d e) : e.setup = d.setup := by
  rw [setup, setup, h.parameters]

theorem seedWord?_eq (h : Reordered d e) : e.seedWord? = d.seedWord? := by
  rw [seedWord?, seedWord?, h.seed]

/-! ## The same grammar in other letters -/

variable {g h : Grammar}

theorem mem_actions_iff (hde : Reordered (d.rename π) e) {c : Char}
    (hkeys : ∀ x ∈ d.actions.getD [], ∀ k ∈ x.1.toList, π k = π c → k = c) {name : String} :
    (String.singleton (π c), name) ∈ e.actions.getD [] ↔
      (String.singleton c, name) ∈ d.actions.getD [] := by
  rw [← hde.perm_actions.mem_iff, getD_actions_rename, mem_map_renameEntry_iff hkeys]
  exact exists_eq_right

theorem mem_rules_iff (hde : Reordered (d.rename π) e) {c : Char}
    (hkeys : ∀ x ∈ d.rules.getD [], ∀ k ∈ x.1.toList, π k = π c → k = c) {texts : List String} :
    (String.singleton (π c), texts) ∈ e.rules.getD [] ↔
      ∃ ts, (String.singleton c, ts) ∈ d.rules.getD [] ∧ ts.map (String.map π) = texts := by
  rw [← hde.perm_rules.mem_iff, getD_rules_rename, mem_map_renameEntry_iff hkeys]

theorem initial_getD (hde : Reordered (d.rename π) e) :
    String.map π (d.initial.getD "") = e.initial.getD "" := by
  rw [← getD_initial_rename, hde.initial]

theorem actionOf?_eq (hde : Reordered (d.rename π) e) (hg : d.Describes g) (hh : e.Describes h)
    (hπ : Set.InjOn π {c | c ∈ d.letters}) {c : Char} (hc : c ∈ d.letters) :
    h.actionOf? (π c) = g.actionOf? c := by
  have hkeys : ∀ x ∈ d.actions.getD [], ∀ k ∈ x.1.toList, π k = π c → k = c :=
    fun x hx k hk => hπ (mem_letters.mpr (Or.inl ⟨x, hx, hk⟩)) hc
  refine Option.ext fun a => ?_
  rw [hh.actionOf?_iff, hg.actionOf?_iff]
  exact exists_congr fun name => and_congr_left fun _ => hde.mem_actions_iff hkeys

theorem textsOf_eq (hde : Reordered (d.rename π) e) (hg : d.Describes g) (hh : e.Describes h)
    (hπ : Set.InjOn π {c | c ∈ d.letters}) {c : Char} (hc : c ∈ d.letters) :
    h.textsOf (π c) = (g.textsOf c).map (String.map π) := by
  have hkeys : ∀ x ∈ d.rules.getD [], ∀ k ∈ x.1.toList, π k = π c → k = c :=
    fun x hx k hk => hπ (mem_letters.mpr (Or.inr (Or.inr ⟨x, hx, Or.inl hk⟩))) hc
  by_cases hkey : String.singleton c ∈ (d.rules.getD []).map Prod.fst
  · obtain ⟨⟨key, texts⟩, hmem, rfl⟩ := List.mem_map.mp hkey
    rw [hg.textsOf_eq hmem]
    exact hh.textsOf_eq ((hde.mem_rules_iff hkeys).mpr ⟨texts, hmem, rfl⟩)
  · rw [hg.textsOf_eq_nil hkey]
    refine hh.textsOf_eq_nil fun hkey' => hkey ?_
    obtain ⟨⟨key, texts⟩, hmem, rfl⟩ := List.mem_map.mp hkey'
    obtain ⟨ts, hts, -⟩ := (hde.mem_rules_iff hkeys).mp hmem
    exact List.mem_map_of_mem hts

theorem translates (hde : Reordered (d.rename π) e) (hg : d.Describes g) (hh : e.Describes h)
    (hπ : Set.InjOn π {c | c ∈ d.letters}) : Grammar.Translates g h (h.renamed π) := by
  have hletters {c : Char} (hc : c ∈ g.alphabet.chars) : c ∈ d.letters := by
    rcases hg.mem_chars_iff.mp hc with hc | hc | ⟨rule, hrule, text, htext, hc⟩
    · exact mem_letters.mpr (Or.inl hc)
    · exact mem_letters.mpr (Or.inr (Or.inl hc))
    · exact mem_letters.mpr (Or.inr (Or.inr ⟨rule, hrule, hc.imp_right fun hc => ⟨text, htext, hc⟩⟩))
  exact hg.wellFormed.translates_renamed hh.wellFormed
    (fun c hc => hde.actionOf?_eq hg hh hπ (hletters hc))
    (fun c hc => hde.textsOf_eq hg hh hπ (hletters hc))

theorem initial_eq (hde : Reordered (d.rename π) e) (hg : d.Describes g) (hh : e.Describes h) :
    h.initial = g.initial.map (h.renamed π) := by
  refine hg.wellFormed.initial_eq_map_renamed hh.wellFormed ?_
  rw [hg.text_initial, hh.text_initial, hde.initial_getD]

end Reordered

/-- What is drawn depends on the structure of a description alone.  With other letters, as long as
they keep apart what was apart, and with the entries of actions and of rules in any order, a
description loads if it did before, and its figure is answered for and rendered alike.  The seed has
to be the same: its own, or the given one if it has none. -/
theorem figure_rename_alike {d e : Description} {π : Char → Char} {seed seed' : UInt64}
    {f : Figure Float} (hload : (d.figure seed).value = .ok f)
    (hπ : Set.InjOn π {c | c ∈ d.letters}) (hde : Reordered (d.rename π) e)
    (hseed : d.seed = none → seed = seed') :
    ∃ f', (e.figure seed').value = .ok f' ∧ f.Alike f' := by
  have hvalid : e.Valid := hde.valid ((exists_figure_iff.mp ⟨f, hload⟩).rename hπ)
  obtain ⟨f', hload'⟩ : ∃ f', (e.figure seed').value = .ok f' := exists_figure_iff.mpr hvalid
  obtain ⟨-, hg, -⟩ := (d.guarded_figure seed).ok hload
  obtain ⟨-, hh, -⟩ := (e.guarded_figure seed').ok hload'
  obtain ⟨-, hsetup, hsource⟩ := figure_eq_ok_iff.mp hload
  obtain ⟨-, hsetup', hsource'⟩ := figure_eq_ok_iff.mp hload'
  have hsetups : f'.setup = f.setup := by
    have hsame : e.setup = d.setup := hde.setup_eq
    rw [hsetup, hsetup'] at hsame
    exact Except.ok.inj hsame
  have hsources : f'.source = f.source := by
    have hword : e.seedWord? = d.seedWord? := hde.seedWord?_eq
    rw [hsource, hsource', hword, seedWord?]
    cases hd : d.seed with
    | none => rw [hseed hd]
    | some n => rfl
  exact ⟨f', hload', Figure.alike_of_translates (hde.translates hg hh hπ) hg.wellFormed hh.wellFormed
    (hde.initial_eq hg hh) hsetups (congrArg Random.Source.seed hsources)⟩

/-- Two letters changed for each other, one of them beyond the ASCII characters. -/
def swapped : Char → Char
  | 'F' => 'é'
  | 'é' => 'F'
  | c => c

theorem swapped_involutive : Function.Involutive swapped := by
  intro c
  by_cases hF : c = 'F'
  · rw [hF]
    rfl
  by_cases hé : c = 'é'
  · rw [hé]
    rfl
  have hc : swapped c = c := by
    unfold swapped
    split
    · exact absurd rfl hF
    · exact absurd rfl hé
    · rfl
  rw [hc, hc]

/-- The overlapping description with two letters swapped and its entries turned around. -/
def overlappingSwapped : Description where
  seed := some (-1)
  actions := some [("+", " TurnL "), ("é", "draw")]
  initial := some "éXF"
  rules := some [("F", ["Y"]), ("X", []), ("é", ["é+é", "", "é+é"])]

theorem figure_rename_alike_swapped :
    Set.InjOn swapped {c | c ∈ overlapping.letters} ∧
      Reordered (overlapping.rename swapped) overlappingSwapped ∧
      ∃ f f', (overlapping.figure 0).value = .ok f ∧ (overlappingSwapped.figure 1).value = .ok f' ∧
        f.Alike f' := by
  have hπ : Set.InjOn swapped {c | c ∈ overlapping.letters} := swapped_involutive.injective.injOn
  have hde : Reordered (overlapping.rename swapped) overlappingSwapped :=
    { seed := rfl
      parameters := rfl
      actions := .some (by decide +kernel)
      initial := by decide +kernel
      rules := .some (by decide +kernel) }
  have hload : ∃ f, (overlapping.figure 0).value = .ok f := ⟨_, rfl⟩
  obtain ⟨f, hload⟩ := hload
  have halike : ∃ f', (overlappingSwapped.figure 1).value = .ok f' ∧ f.Alike f' :=
    figure_rename_alike hload hπ hde nofun
  obtain ⟨f', hload', halike⟩ := halike
  exact ⟨hπ, hde, f, f', hload, hload', halike⟩

end Description

end LSystem
