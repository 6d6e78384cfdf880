import LSystem.Json.Record
import LSystem.Proofs.Json.Quoted

/-!
# Sequences and records read back

A compact document is read back part by part: a list by its items, entries by their keys and values,
and a record by its fields.  A record is built up field by field, in any order, and a field that is
left out leaves it as it was (`Fills`); so its text is read back if no key comes twice and no field
is missing that has to be there (`reads_object`).
-/

namespace LSystem.Json

open Text (Glyph)

theorem compactItems_eq_map (vs : List Value) : Value.compactItems vs = vs.map Value.compact := by
  induction vs with
  | nil => rfl
  | cons v vs ih => rw [Value.compactItems, ih, List.map_cons]

theorem compactEntries_eq_map (es : List (String × Value)) :
    Value.compactEntries es = es.map fun e => written e.1 ++ ":" ++ e.2.compact := by
  induction es with
  | nil => rfl
  | cons e es ih => rw [Value.compactEntries, ih, List.map_cons]

theorem ofString_bracketed (left right : String) (ts : List String) :
    Glyph.ofString (Value.bracketed left right ts) =
      Glyph.ofString left ++ Reader.listed true ts ++ Glyph.ofString right := by
  rw [Value.bracketed, Glyph.ofString_append, Glyph.ofString_append, Reader.ofString_intercalate]

theorem starts_bracketed {left : String} (h : Starts left) (right : String) (ts : List String) :
    Starts (Value.bracketed left right ts) :=
  (h.append _).append _

namespace Reader

variable {β γ : Type} {r : Reader β}

/-! ## Values that may be null -/

theorem reads_nullable_null (r : Reader β) : Reads (nullable r) "null" none := by
  intro rest _
  rfl

theorem reads_nullable {t : String} {value : β} (ht : Starts t) (h : Reads r t value) :
    Reads (nullable r) t (some value) := by
  intro rest hrest
  obtain ⟨c, gs, htext, hblank, -, -, hnull⟩ := ht.ofString_eq
  have hpeek : peek.run (Glyph.ofString t ++ rest) = .ok (.char c, Glyph.ofString t ++ rest) := by
    rw [htext]
    exact run_peek hblank _
  have hc : Glyph.char c ≠ .char 'n' := by
    simpa using hnull
  rw [nullable, run_bind_of_ok hpeek, if_neg hc]
  exact run_map_of_ok (h rest hrest)

/-! ## Strings, lists and entries -/

theorem reads_text (s : String) : Reads text (written s) s := by
  intro rest _
  have hpeek : peek.run (Glyph.ofString (written s) ++ rest) =
      .ok (.char '"', Glyph.ofString (written s) ++ rest) := by
    rw [ofString_written]
    exact run_peek rfl _
  rw [text, run_bind_of_ok hpeek, if_pos rfl]
  exact run_string_written s rest

/-- Collecting one item after another reads back a list of items, the last one first. -/
theorem chain_collect {item : Reader β} (text : β → String) (vs done : List β)
    (h : ∀ v ∈ vs, Starts (text v) ∧ Reads item (text v) v) :
    Chain (fun done => (· :: done) <$> item) done (vs.map text) (vs.reverse ++ done) := by
  induction vs generalizing done with
  | nil => exact .nil done
  | cons v vs ih =>
    obtain ⟨hstarts, hreads⟩ := h v List.mem_cons_self
    have htail := ih (v :: done) fun u hu => h u (List.mem_cons_of_mem v hu)
    rw [List.reverse_cons, List.append_assoc]
    exact .cons hstarts (fun rest hrest => run_map_of_ok (hreads rest hrest)) htail

theorem reads_collected {item : Reader β} {close : Char} (hclose : IsBracket close)
    (left : Char) (hleft : isBlank (.char left) = false) (text : β → String) (vs : List β)
    (h : ∀ v ∈ vs, Starts (text v) ∧ Reads item (text v) v) :
    Reads (do
        opening left
        return (← many close (fun done => (· :: done) <$> item) []).reverse)
      (Value.bracketed left.toString close.toString (vs.map text)) vs := by
  intro rest _
  have hmany := run_many hclose (chain_collect text vs [] h) rest
  have htext : Glyph.ofString (Value.bracketed left.toString close.toString (vs.map text)) ++ rest =
      .char left :: (listed true (vs.map text) ++ .char close :: rest) := by
    rw [ofString_bracketed]
    simp [Glyph.ofString]
  rw [htext, run_bind_of_ok (run_opening hleft _), run_bind_of_ok hmany, List.append_nil,
    List.reverse_reverse]
  rfl

theorem reads_list {item : Reader β} (text : β → String) (vs : List β)
    (h : ∀ v ∈ vs, Starts (text v) ∧ Reads item (text v) v) :
    Reads (list item) (Value.bracketed "[" "]" (vs.map text)) vs :=
  reads_collected (.inl rfl) '[' rfl text vs h

theorem reads_entry {value : Reader β} {t : String} {v : β} (key : String) (h : Reads value t v) :
    Reads (entry value) (written key ++ ":" ++ t) (key, v) := by
  intro rest hrest
  have hcolon : Glyph.ofString (written key ++ ":" ++ t) ++ rest =
      Glyph.ofString (written key) ++ (.char ':' :: (Glyph.ofString t ++ rest)) := by
    simp [Glyph.ofString]
  rw [hcolon, entry, run_bind_of_ok (run_string_written key _),
    run_bind_of_ok (run_delimiter rfl _), run_bind_of_ok (h rest hrest)]
  rfl

/-- Entries keep their order, and a key may come again. -/
theorem reads_entries {value : Reader β} (text : β → String) (es : List (String × β))
    (h : ∀ e ∈ es, Reads value (text e.2) e.2) :
    Reads (entries value)
      (Value.bracketed "\x7b" "\x7d" (es.map fun e => written e.1 ++ ":" ++ text e.2)) es := by
  apply reads_collected (.inr rfl) '\x7b' rfl
  intro e he
  exact ⟨((starts_written e.1).append _).append _, reads_entry e.1 (h e he)⟩

/-! ## Triples -/

theorem run_component {t : String} {v : β} (h : Starts t ∧ Reads r t v) (first : Bool)
    (ts : List String) (rest : List Glyph) :
    (component first r).run (listed first (t :: ts) ++ .char ']' :: rest) =
      .ok (v, listed false ts ++ .char ']' :: rest) := by
  have hbracket : IsBracket ']' := .inl rfl
  rw [component, run_bind_of_ok (run_more_listed hbracket h.1 first ts _), if_pos rfl]
  exact h.2 _ (closes_listed hbracket ts rest)

theorem reads_triple {tx ty tz : String} {x y z : β} (hx : Starts tx ∧ Reads r tx x)
    (hy : Starts ty ∧ Reads r ty y) (hz : Starts tz ∧ Reads r tz z) :
    Reads (triple r) (Value.bracketed "[" "]" [tx, ty, tz]) (x, y, z) := by
  intro rest _
  have htext : Glyph.ofString (Value.bracketed "[" "]" [tx, ty, tz]) ++ rest =
      .char '[' :: (listed true [tx, ty, tz] ++ .char ']' :: rest) := by
    rw [ofString_bracketed]
    simp [Glyph.ofString]
  rw [htext, triple, run_bind_of_ok (run_opening rfl _),
    run_bind_of_ok (run_component hx true [ty, tz] rest),
    run_bind_of_ok (run_component hy false [tz] rest),
    run_bind_of_ok (run_component hz false [] rest)]
  exact run_bind_of_ok (run_delimiter rfl rest)

end Reader

/-! ## Records -/

namespace Record

open Reader

variable {σ : Type} {fields : List (Field σ)} {s s' s'' : σ} {es es' : List (String × Value)}

/-- Reading the fields in the order of some entries leads from one value to another. -/
inductive Fills (fields : List (Field σ)) : σ → List (String × Value) → σ → Prop where
  | nil (s : σ) : Fills fields s [] s
  | cons {s s' s'' : σ} {key : String} {v : Value} {es : List (String × Value)} {field : Field σ}
      (found : fields.find? (·.name = key) = some field)
      (reads : Reads (field.read s) v.compact s') (rest : Fills fields s' es s'') :
      Fills fields s ((key, v) :: es) s''

theorem Fills.append (h : Fills fields s es s') (h' : Fills fields s' es' s'') :
    Fills fields s (es ++ es') s'' := by
  induction h with
  | nil s => exact h'
  | cons found reads _ ih => exact .cons found reads (ih h')

theorem reads_field {key : String} {v : Value} {field : Field σ} {seen : List String}
    (found : fields.find? (·.name = key) = some field) (hnew : key ∉ seen)
    (h : Reads (field.read s) v.compact s') :
    Reads (entry fields (seen, s)) (written key ++ ":" ++ v.compact) (key :: seen, s') := by
  intro rest hrest
  have htext : Glyph.ofString (written key ++ ":" ++ v.compact) ++ rest =
      Glyph.ofString (written key) ++ (.char ':' :: (Glyph.ofString v.compact ++ rest)) := by
    simp [Glyph.ofString]
  have hseen : ¬ seen.contains key = true := by
    simpa using hnew
  rw [htext, entry, run_bind_of_ok (run_string_written key _), found]
  dsimp only
  rw [if_neg hseen, run_bind_of_ok (run_delimiter rfl _), run_bind_of_ok (h rest hrest)]
  rfl

theorem Fills.chain (h : Fills fields s es s') {seen : List String}
    (hdistinct : (es.map Prod.fst).Nodup) (hnew : ∀ key ∈ es.map Prod.fst, key ∉ seen) :
    Chain (entry fields) (seen, s) (es.map fun e => written e.1 ++ ":" ++ e.2.compact)
      ((es.map Prod.fst).reverse ++ seen, s') := by
  induction h generalizing seen with
  | nil s => exact .nil _
  | @cons s s' s'' key v es field found reads _ ih =>
    rw [List.map_cons, List.nodup_cons] at hdistinct
    have hkey : key ∉ seen := hnew key List.mem_cons_self
    have htail : ∀ k ∈ es.map Prod.fst, k ∉ key :: seen := by
      intro k hk hmem
      rcases List.mem_cons.mp hmem with rfl | hold
      · exact hdistinct.1 hk
      · exact hnew k (List.mem_cons_of_mem _ hk) hold
    have hchain := ih hdistinct.2 htail
    rw [List.map_cons, List.map_cons, List.reverse_cons, List.append_assoc]
    exact .cons (((starts_written key).append _).append _) (reads_field found hkey reads) hchain

/-- The text of an object is read back as what its entries lead to, if no key comes twice and every
field that has to be there is there. -/
theorem reads_object (h : Fills fields s es s') (hdistinct : (es.map Prod.fst).Nodup)
    (hrequired : ∀ field ∈ fields, field.presence = .required → field.name ∈ es.map Prod.fst) :
    Reads (read fields s) (Value.object es).compact s' := by
  intro rest _
  let texts : List String := es.map fun e => written e.1 ++ ":" ++ e.2.compact
  let inner : List Glyph := listed true texts ++ .char '\x7d' :: rest
  have hbracket : IsBracket '\x7d' := .inr rfl
  have htext : Glyph.ofString (Value.object es).compact ++ rest = .char '\x7b' :: inner := by
    rw [Value.compact, compactEntries_eq_map, ofString_bracketed]
    simp [Glyph.ofString, inner, texts]
  have hchain : Chain (entry fields) ([], s) texts ((es.map Prod.fst).reverse ++ [], s') :=
    h.chain hdistinct fun _ _ => List.not_mem_nil
  have hpeek : peek.run (.char '\x7b' :: inner) = .ok (.char '\x7b', .char '\x7b' :: inner) :=
    run_peek rfl inner
  have hskip : skip.run (.char '\x7b' :: inner) = .ok ((), inner) := rfl
  have hget : (get : Reader (List Glyph)).run inner = .ok (inner, inner) := rfl
  have hfuel : texts.length < inner.length + 1 := by
    have hlength := length_le_length_listed hchain true
    simp only [inner, List.length_append]
    omega
  have hpresent : ¬ (fields.any fun f =>
      f.presence = .required && !((es.map Prod.fst).reverse ++ []).contains f.name) = true := by
    simp only [List.any_eq_true, Bool.and_eq_true, decide_eq_true_eq, Bool.not_eq_true',
      List.append_nil, List.contains_reverse, not_exists, not_and]
    intro f hf hpresence
    simpa using hrequired f hf hpresence
  rw [htext, read, run_bind_of_ok hpeek, if_pos rfl, run_bind_of_ok hskip, fromObject,
    run_bind_of_ok hget, run_bind_of_ok (run_manyWith hbracket hchain true hfuel rest)]
  dsimp only
  rw [if_neg hpresent, run_bind_of_ok (run_delimiter rfl rest)]
  rfl

end Record

end LSystem.Json
