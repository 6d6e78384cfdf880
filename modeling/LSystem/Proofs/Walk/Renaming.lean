import LSystem.Proofs.Grammar.Reading
import LSystem.Proofs.Walk.Growth

/-!
# Walks do not see symbols

What a walk does with a symbol depends on its action and its alternatives alone.  So a map that takes
the symbols of one grammar to symbols of another with the same actions, and with the mapped words as
alternatives, takes every word to one that is walked in the same way: with the same moves, the same
draws and the same box, and within the same bound (`Translates.walk`, `Translates.bound`).  Grammars
that say the same of characters, up to what the characters are, have such a map.
-/

namespace LSystem

open LSystem.Random (WordSource)

namespace Grammar

/-! ## Weights of mapped words -/

section Weights

variable {f f' : Symbol → Nat} {φ : Symbol → Symbol}

theorem weigh_map {w : Word} (h : ∀ s ∈ w, f' (φ s) = f s) : weigh f' (w.map φ) = weigh f w := by
  induction w with
  | nil => rfl
  | cons s w ih =>
    obtain ⟨hs, hw⟩ := List.forall_mem_cons.mp h
    rw [List.map_cons, weigh_cons, weigh_cons, hs, ih hw]

theorem heaviest_map {ws : Array Word} (h : ∀ w ∈ ws, weigh f' (w.map φ) = weigh f w) :
    heaviest f' (ws.map (List.map φ)) = heaviest f ws := by
  have hfold (ws : List Word) (hws : ∀ w ∈ ws, weigh f' (w.map φ) = weigh f w) (n : Nat) :
      (ws.map (List.map φ)).foldl (fun n w => max n (weigh f' w)) n =
        ws.foldl (fun n w => max n (weigh f w)) n := by
    induction ws generalizing n with
    | nil => rfl
    | cons w ws ih =>
      obtain ⟨hw, hws⟩ := List.forall_mem_cons.mp hws
      rw [List.map_cons, List.foldl_cons, List.foldl_cons, hw, ih hws]
  rw [heaviest_eq, heaviest_eq, Array.toList_map]
  exact hfold ws.toList (fun w hw => h w (Array.mem_toList_iff.mp hw)) 0

end Weights

/-! ## Translations -/

/-- A map that takes the symbols of a grammar to symbols of another one for which it does and replaces
the same. -/
structure Translates (g h : Grammar) (φ : Symbol → Symbol) : Prop where
  action? : ∀ {s}, s ∈ g.symbols → h.action? (φ s) = g.action? s
  alternatives : ∀ {s}, s ∈ g.symbols → h.alternatives (φ s) = (g.alternatives s).map (List.map φ)

namespace Translates

variable {α τ σ : Type} [Performer τ α] [WordSource σ]
  {g h : Grammar} {φ : Symbol → Symbol} {s : Symbol} {w : Word}

theorem size_alternatives (hφ : Translates g h φ) (hs : s ∈ g.symbols) :
    (h.alternatives (φ s)).size = (g.alternatives s).size := by
  rw [hφ.alternatives hs, Array.size_map]

theorem pick (hφ : Translates g h φ) (hs : s ∈ g.symbols) (hsize : 0 < (g.alternatives s).size)
    (hsize' : 0 < (h.alternatives (φ s)).size) (draw : UInt64) :
    h.pick (φ s) hsize' draw = (g.pick s hsize draw).map φ := by
  simp only [Grammar.pick, hφ.alternatives hs, Array.size_map, Fin.getElem_fin, Array.getElem_map]

theorem step (hφ : Translates g h φ) (hs : s ∈ g.symbols) (t : τ) :
    h.step t (φ s) = g.step t s := by
  unfold Grammar.step
  rw [hφ.action? hs]

theorem carry (hφ : Translates g h φ) (hw : g.Knows w) (t : τ) :
    h.carry (w.map φ) t = g.carry w t := by
  induction w generalizing t with
  | nil => rfl
  | cons s w ih =>
    obtain ⟨hs, hw⟩ := List.forall_mem_cons.mp hw
    rw [List.map_cons, carry_cons, carry_cons, hφ.step hs, ih hw]

theorem route (hφ : Translates g h φ) (hw : g.Knows w) (t : τ) :
    h.route (w.map φ) t = g.route w t := by
  induction w generalizing t with
  | nil => rfl
  | cons s w ih =>
    obtain ⟨hs, hw⟩ := List.forall_mem_cons.mp hw
    rw [List.map_cons, Grammar.route, Grammar.route, hφ.step hs, ih hw]

variable [Scalar α]

theorem walk_zero (hφ : Translates g h φ) (hw : g.Knows w) (t : τ) (source : σ) :
    h.walk 0 (w.map φ) t source = g.walk 0 w t source := by
  rw [Grammar.walk_zero, Grammar.walk_zero, hφ.carry hw, hφ.route hw]

private theorem walkSymbol (hφ : Translates g h φ) (hg : g.WellFormed) (rounds : Nat)
    (hwalk : ∀ {w : Word}, g.Knows w → ∀ (t : τ) (source : σ),
      h.walk rounds (w.map φ) t source = g.walk rounds w t source)
    (hs : s ∈ g.symbols) (t : τ) (source : σ) :
    h.walkSymbol rounds (φ s) t source = g.walkSymbol rounds s t source := by
  unfold Grammar.walkSymbol
  by_cases hsize : 0 < (g.alternatives s).size
  · have hsize' : 0 < (h.alternatives (φ s)).size := (hφ.size_alternatives hs).symm ▸ hsize
    rw [rewrite?_of_alternatives hsize, rewrite?_of_alternatives hsize', hφ.pick hs hsize]
    exact hwalk (hg.knows_alternative (Array.getElem_mem _)) t _
  · have hsize' : ¬ 0 < (h.alternatives (φ s)).size := (hφ.size_alternatives hs).symm ▸ hsize
    rw [rewrite?_of_terminal hsize, rewrite?_of_terminal hsize']
    exact hφ.walk_zero (List.forall_mem_singleton.mpr hs) t source

/-- A translated word is walked as the word itself. -/
theorem walk (hφ : Translates g h φ) (hg : g.WellFormed) (rounds : Nat) (hw : g.Knows w) (t : τ)
    (source : σ) : h.walk rounds (w.map φ) t source = g.walk rounds w t source := by
  induction rounds generalizing w t source with
  | zero => exact hφ.walk_zero hw t source
  | succ rounds ih =>
    have hfold {w : Word} (hw : g.Knows w) (x : Option (Box α) × τ × σ) :
        (w.map φ).foldl (h.walkStep rounds) x = w.foldl (g.walkStep rounds) x := by
      induction w generalizing x with
      | nil => rfl
      | cons s w ihw =>
        obtain ⟨hs, hw⟩ := List.forall_mem_cons.mp hw
        rw [List.map_cons, List.foldl_cons, List.foldl_cons, walkStep_eq, walkStep_eq,
          hφ.walkSymbol hg rounds (fun hw => ih hw) hs, ihw hw]
    rw [walk_succ, walk_succ, hfold hw]

theorem growth (hφ : Translates g h φ) (hg : g.WellFormed) (rounds : Nat) (hs : s ∈ g.symbols) :
    h.growth rounds (φ s) = g.growth rounds s := by
  induction rounds generalizing s with
  | zero => rfl
  | succ rounds ih =>
    by_cases hsize : 0 < (g.alternatives s).size
    · have hsize' : 0 < (h.alternatives (φ s)).size := (hφ.size_alternatives hs).symm ▸ hsize
      rw [growth_of_alternatives hsize, growth_of_alternatives hsize', hφ.alternatives hs]
      exact heaviest_map fun w hw => weigh_map fun s hs => ih (hg.knows_alternative hw s hs)
    · have hsize' : ¬ 0 < (h.alternatives (φ s)).size := (hφ.size_alternatives hs).symm ▸ hsize
      rw [growth_of_terminal hsize, growth_of_terminal hsize']

theorem bound (hφ : Translates g h φ) (hg : g.WellFormed) (hh : h.WellFormed) (hw : g.Knows w)
    (rounds : Nat) : h.bound (w.map φ) rounds = g.bound w rounds := by
  rw [hh.bound_eq, hg.bound_eq, weigh_map fun s hs => hφ.growth hg rounds (hw s hs)]

end Translates

/-! ## Grammars that say the same -/

/-- Where a symbol goes if its character is renamed. -/
def renamed (h : Grammar) (π : Char → Char) (s : Symbol) : Symbol := h.alphabet.symbol (π s.char)

namespace WellFormed

variable {g h : Grammar} {π : Char → Char}

theorem map_renamed_word (hg : g.WellFormed) (h : Grammar) (π : Char → Char) (text : String) :
    (g.alphabet.word text.toList).map (h.renamed π) =
      h.alphabet.word (String.map π text).toList := by
  rw [String.toList_map, Alphabet.word, Alphabet.word, List.map_map, List.map_map]
  refine List.map_congr_left fun c _ => ?_
  exact congrArg (fun c => h.alphabet.symbol (π c)) (hg.consistent.char_symbol c)

theorem initial_eq_map_renamed (hg : g.WellFormed) (hh : h.WellFormed)
    (hinitial : Word.text h.initial = String.map π (Word.text g.initial)) :
    h.initial = g.initial.map (h.renamed π) := by
  rw [← hg.word_text hg.knows_initial, map_renamed_word hg, ← hinitial,
    hh.word_text hh.knows_initial]

/-- Grammars that say the same of characters up to a renaming do the same. -/
theorem translates_renamed (hg : g.WellFormed) (hh : h.WellFormed)
    (haction : ∀ c ∈ g.alphabet.chars, h.actionOf? (π c) = g.actionOf? c)
    (htexts : ∀ c ∈ g.alphabet.chars, h.textsOf (π c) = (g.textsOf c).map (String.map π)) :
    Translates g h (h.renamed π) := by
  refine ⟨fun {s} hs => ?_, fun {s} hs => Array.toList_inj.mp ?_⟩
  · have hchar : s.char ∈ g.alphabet.chars := List.mem_map_of_mem hs
    rw [renamed, hh.action?_symbol, haction _ hchar, hg.actionOf?_char hs]
  · have hchar : s.char ∈ g.alphabet.chars := List.mem_map_of_mem hs
    have hword := hg.alternatives_symbol s.char
    rw [hg.consistent.symbol_char hs] at hword
    rw [renamed, hh.alternatives_symbol, htexts _ hchar, Array.toList_map, hword, List.map_map,
      List.map_map]
    exact List.map_congr_left fun text _ => (map_renamed_word hg h π text).symm

end WellFormed

/-- One grammar says of every character, and to start from, what the other one says. -/
structure SaysAs (h g : Grammar) : Prop where
  actionOf? : ∀ c, h.actionOf? c = g.actionOf? c
  textsOf : ∀ c, h.textsOf c = g.textsOf c
  text_initial : Word.text h.initial = Word.text g.initial

theorem SaysAs.translates {g h : Grammar} (hsame : h.SaysAs g) (hg : g.WellFormed)
    (hh : h.WellFormed) :
    Translates g h (h.renamed id) ∧ h.initial = g.initial.map (h.renamed id) := by
  refine ⟨hg.translates_renamed hh (fun c _ => hsame.actionOf? c) fun c _ => ?_,
    hg.initial_eq_map_renamed hh ?_⟩
  · rw [id, hsame.textsOf]
    exact (List.map_id'' (fun _ => String.map_id) _).symm
  · rw [hsame.text_initial, String.map_id]

end Grammar

end LSystem
