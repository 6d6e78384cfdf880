import LSystem.Json.Record
import Mathlib.Tactic.Common

/-!
# What a reader can give

A condition on the values that a reader gives, whatever it reads.  It is put together from
conditions on the parts of the reader: what every item keeps, a sequence keeps (`yields_manyWith`),
and what every field keeps, a record keeps (`yields_read`).
-/

namespace LSystem.Json

open Text (Glyph)

/-- All values that the reader gives satisfy the condition. -/
def Yields {β : Type} (r : Reader β) (Q : β → Prop) : Prop :=
  ∀ glyphs value rest, r.run glyphs = .ok (value, rest) → Q value

section Parts

variable {β γ : Type} {r r' : Reader β} {Q : β → Prop} {R : γ → Prop}

theorem yields_trivial (r : Reader β) : Yields r fun _ => True :=
  fun _ _ _ _ => trivial

theorem yields_throw (fault : Fault) : Yields (throw fault : Reader β) Q := by
  intro glyphs value rest h
  nomatch h

theorem yields_pure {value : β} (h : Q value) : Yields (pure value) Q := by
  rintro glyphs _ _ ⟨⟩
  exact h

theorem Yields.bind {f : β → Reader γ} (h : Yields r Q)
    (hf : ∀ value, Q value → Yields (f value) R) : Yields (r >>= f) R := by
  intro glyphs value rest hrun
  rw [StateT.run_bind] at hrun
  cases hr : r.run glyphs with
  | error fault =>
    rw [hr] at hrun
    nomatch hrun
  | ok first =>
    rw [hr] at hrun
    exact hf first.1 (h glyphs first.1 first.2 hr) first.2 value rest hrun

theorem yields_bind_trivial {f : β → Reader γ} (hf : ∀ value, Yields (f value) R) :
    Yields (r >>= f) R :=
  (yields_trivial r).bind fun value _ => hf value

theorem Yields.map {f : β → γ} (h : Yields r Q) (hf : ∀ value, Q value → R (f value)) :
    Yields (f <$> r) R := by
  rw [map_eq_pure_bind]
  exact h.bind fun value hvalue => yields_pure (hf value hvalue)

theorem yields_ite {p : Prop} [Decidable p] (h : p → Yields r Q) (h' : ¬ p → Yields r' Q) :
    Yields (if p then r else r') Q := by
  split
  · exact h ‹_›
  · exact h' ‹_›

end Parts

namespace Reader

/-- Nothing is ever given in place of a value of another type. -/
theorem yields_mismatch {β : Type} {Q : β → Prop} : Yields (mismatch : Reader β) Q := by
  have hthrow (_ : Unit) : Yields (throw .mismatched : Reader β) Q := yields_throw _
  unfold mismatch
  refine yields_bind_trivial fun g => ?_
  refine yields_ite (fun _ => yields_bind_trivial hthrow) fun _ => ?_
  refine yields_ite (fun _ => yields_bind_trivial hthrow) fun _ => ?_
  refine yields_ite (fun _ => yields_bind_trivial hthrow) fun _ => ?_
  refine yields_ite (fun _ => yields_bind_trivial fun _ => hthrow ()) fun _ => ?_
  refine yields_ite (fun _ => yields_bind_trivial fun _ => hthrow ()) fun _ => ?_
  exact yields_ite (fun _ => yields_bind_trivial hthrow) fun _ => hthrow ()

section Values

variable {β : Type} {r : Reader β} {Q : β → Prop}

theorem yields_nullable (h : Yields r Q) : Yields (nullable r) fun value? => ∀ x ∈ value?, Q x := by
  unfold nullable
  refine yields_bind_trivial fun g => ?_
  refine yields_ite (fun _ => ?_) fun _ => ?_
  · refine yields_bind_trivial fun _ => yields_pure ?_
    simp
  · refine h.map fun value hvalue => ?_
    simpa using hvalue

theorem yields_component (first : Bool) (h : Yields r Q) : Yields (component first r) Q := by
  unfold component
  refine yields_bind_trivial fun b => ?_
  exact yields_ite (fun _ => h) fun _ => yields_throw _

theorem yields_triple (h : Yields r Q) :
    Yields (triple r) fun (x, y, z) => Q x ∧ Q y ∧ Q z := by
  unfold triple
  refine yields_bind_trivial fun _ => ?_
  refine (yields_component true h).bind fun x hx => ?_
  refine (yields_component false h).bind fun y hy => ?_
  refine (yields_component false h).bind fun z hz => ?_
  exact yields_bind_trivial fun _ => yields_pure ⟨hx, hy, hz⟩

theorem yields_integer (low high : Int) :
    Yields (integer low high) fun i => low ≤ i ∧ i ≤ high := by
  unfold integer
  refine yields_bind_trivial fun n => ?_
  cases n with
  | integer i => exact yields_ite (fun h => yields_pure h) fun _ => yields_throw _
  | real x => exact yields_throw _

end Values

theorem yields_manyWith {σ : Type} {close : Char} {item : σ → Reader σ} {I : σ → Prop}
    (hitem : ∀ s, I s → Yields (item s) I) (fuel : Nat) (first : Bool) {s : σ} (hs : I s) :
    Yields (manyWith close item fuel first s) I := by
  induction fuel generalizing first s with
  | zero => exact yields_throw _
  | succ fuel ih =>
    rw [manyWith]
    refine yields_bind_trivial fun b => ?_
    refine yields_ite (fun _ => ?_) fun _ => yields_pure hs
    exact (hitem s hs).bind fun s' hs' => ih false hs'

end Reader

namespace Record

open Reader

variable {σ : Type} {fields : List (Field σ)} {I : σ → Prop}

theorem yields_entry (hfields : ∀ field ∈ fields, ∀ s, I s → Yields (field.read s) I)
    (seen : List String) {s : σ} (hs : I s) :
    Yields (entry fields (seen, s)) fun state => I state.2 := by
  unfold entry
  refine yields_bind_trivial fun key => ?_
  cases hfind : fields.find? (·.name = key) with
  | none => exact yields_bind_trivial fun _ => yields_bind_trivial fun _ => yields_pure hs
  | some field =>
    have hread := hfields field (List.mem_of_find?_eq_some hfind) s hs
    have hvalue (_ : Unit) : Yields (do
        delimiter ':'
        let s ← field.read s
        return (key :: seen, s)) fun state => I state.2 :=
      yields_bind_trivial fun _ => hread.bind fun s' hs' => yields_pure hs'
    exact yields_ite (fun _ => yields_bind_trivial hvalue) fun _ => hvalue ()

theorem yields_fromObject (hfields : ∀ field ∈ fields, ∀ s, I s → Yields (field.read s) I) {s : σ}
    (hs : I s) : Yields (fromObject fields s) I := by
  unfold fromObject
  refine yields_bind_trivial fun glyphs => ?_
  have hmany : Yields (manyWith '\x7d' (entry fields) (glyphs.length + 1) true ([], s))
      fun state => I state.2 := by
    apply yields_manyWith
    · exact fun state hstate => yields_entry hfields state.1 hstate
    · exact hs
  refine hmany.bind fun state hstate => ?_
  have hrest (_ : Unit) : Yields (do delimiter '\x7d'; return state.2) I :=
    yields_bind_trivial fun _ => yields_pure hstate
  exact yields_ite (fun _ => yields_bind_trivial hrest) fun _ => hrest ()

theorem yields_fromArray (hfields : ∀ field ∈ fields, ∀ s, I s → Yields (field.read s) I)
    (first : Bool) {s : σ} (hs : I s) : Yields (fromArray first fields s) I := by
  induction fields generalizing first s with
  | nil => exact yields_bind_trivial fun _ => yields_pure hs
  | cons field fields ih =>
    have htail : ∀ field ∈ fields, ∀ s, I s → Yields (field.read s) I :=
      fun f hf => hfields f (List.mem_cons_of_mem field hf)
    rw [fromArray]
    refine yields_bind_trivial fun b => ?_
    refine yields_ite (fun _ => ?_) fun _ => ?_
    · exact (hfields field List.mem_cons_self s hs).bind fun s' hs' => ih htail false hs'
    · exact yields_ite (fun _ => ih htail first hs) fun _ => yields_throw _

/-- What every field keeps holds of every record that is read. -/
theorem yields_read (hfields : ∀ field ∈ fields, ∀ s, I s → Yields (field.read s) I) {s : σ}
    (hs : I s) : Yields (read fields s) I := by
  unfold read
  refine yields_bind_trivial fun g => ?_
  have hobject := yields_fromObject hfields hs
  have harray := yields_fromArray hfields true hs
  refine yields_ite (fun _ => yields_bind_trivial fun _ => hobject) fun _ => ?_
  exact yields_ite (fun _ => yields_bind_trivial fun _ => harray) fun _ => yields_mismatch

end Record

end LSystem.Json
