import ObjectSpace.Proofs.Object.Marks
import ObjectSpace.Proofs.Object.Staged
import ObjectSpace.Proofs.Service.Invoke
import ObjectSpace.Proofs.Store.Journal

/-!
# What becomes of an object and its slots

A flush writes the batch of its object, or it changes nothing. So as long as an object forgets no
field, its slots come to hold the values that were set, over what was in them before.
-/

namespace ObjectSpace

open Store (Tracks)

/-- What becomes of an object and its slots: nothing, or its batch is written. -/
inductive Resident.Fate (o : Resident) (slots : Slots) : Resident → Slots → Prop
  | waits : Fate o slots o slots
  | written {b : Slots} (hb : o.batch = .ok b) : Fate o slots (o.settle b) (slots.merge b)

namespace Resident

variable {σ : Type} [Store σ] {o o' : Resident} {slots : Slots} {held : σ → Slots}

theorem fate_flush (htracks : Tracks o.identity held) (s : σ) :
    o.Fate (held s) (flush (o, s)).2.1 (held (flush (o, s)).2.2) := by
  rcases o.write?_cases with ⟨hd, _⟩ | ⟨e, hd, hb, _⟩ | ⟨b, hd, hb, _⟩
  · rw [flush_of_clean hd]
    exact .waits
  · rw [flush_of_not_encoded hd hb]
    exact .waits
  · rw [flush_put hd hb]
    rcases hput : Store.put o.identity b s with ⟨out, s'⟩
    cases out with
    | ok u => exact htracks.put_ok hput ▸ .written hb
    | fail e => exact htracks.put_failed hput rfl ▸ .waits
    | crash => exact htracks.put_failed hput rfl ▸ .waits

theorem Fate.flush (htracks : Tracks o.identity held) {s : σ} (h : o.Fate slots o' (held s)) :
    o.Fate slots (flush (o', s)).2.1 (held (flush (o', s)).2.2) := by
  generalize hslots : held s = slots' at h
  cases h with
  | waits =>
    subst hslots
    exact fate_flush htracks s
  | written hb =>
    rw [flush_of_clean (isDirty_settle hb)]
    dsimp only
    rw [hslots]
    exact .written hb

end Resident

theorem Store.Tracks.looks {σ : Type} [Store σ] {id : Identity} {held : σ → Slots}
    (h : Tracks id held) {s s' : σ} (hlooks : Store.Looks s s') : held s' = held s := by
  cases hlooks with
  | none => rfl
  | get id' i => exact h.get id' i s

/-! ## Values that were set -/

namespace Mark

def assign (values : Table UInt32 Value) : Mark → Table UInt32 Value
  | set i v => values.insert i v
  | forget _ | flush => values

/-- The fields that were set, with their last values. -/
def values (ms : List Mark) : Table UInt32 Value := ms.foldl assign {}

end Mark

/-- What is in a slot once values were written over what had been there. -/
def WrittenOver (c : Class) (values : Table UInt32 Value) (start slots : Slots) (i : UInt32) :
    Prop :=
  match values.get? i with
  | some v => ∃ f payload, c.fieldAt? i = some f ∧ f.shape.encode f.name v = .ok payload ∧
      slots.get? i = some payload
  | none => slots.get? i = start.get? i

theorem writtenOver_of_some {c : Class} {values : Table UInt32 Value} {start slots : Slots}
    {i : UInt32} {v : Value} (h : values.get? i = some v) : WrittenOver c values start slots i ↔
      ∃ f payload, c.fieldAt? i = some f ∧ f.shape.encode f.name v = .ok payload ∧
        slots.get? i = some payload := by
  unfold WrittenOver
  rw [h]

theorem writtenOver_of_none {c : Class} {values : Table UInt32 Value} {start slots : Slots}
    {i : UInt32} (h : values.get? i = none) :
    WrittenOver c values start slots i ↔ slots.get? i = start.get? i := by
  unfold WrittenOver
  rw [h]

theorem writtenOver_insert {c : Class} {values : Table UInt32 Value} {start slots : Slots}
    {i j : UInt32} (hne : i ≠ j) (v : Value) :
    WrittenOver c (values.insert j v) start slots i ↔ WrittenOver c values start slots i := by
  unfold WrittenOver
  rw [Table.get?_insert, if_neg hne]

namespace Resident

/-- The values that were set are on their way into the slots: what is not pending is written. -/
structure Overwrites (c : Class) (start : Slots) (values : Table UInt32 Value) (o : Resident)
    (slots : Slots) : Prop where
  schema : o.schema = c
  noted : ∃ ms, o.Noted ms
  pending : ∀ i v, o.pending.get? i = some v → values.get? i = some v
  written : ∀ i, o.pending.get? i = none → WrittenOver c values start slots i
  staged : (∀ f ∈ c.fields, f.shape.Proper) → o.Staged
  canonical : (∀ f ∈ c.fields, f.shape.Proper) → ∀ i v, values.get? i = some v →
    ∃ f, c.fieldAt? i = some f ∧ f.shape.Canonical v

theorem get?_pending_of_clean {o : Resident} (h : o.isDirty = false) (i : UInt32) :
    o.pending.get? i = none :=
  (get?_pending o i).trans (if_neg (Bool.eq_false_iff.1 (contains_of_clean h i)))

theorem overwrites_of_clean {o : Resident} (h : o.isDirty = false) (slots : Slots) :
    o.Overwrites o.schema slots {} slots where
  schema := rfl
  noted := ⟨[], noted_of_clean (contains_of_clean h)⟩
  pending i _ hv := nomatch (get?_pending_of_clean h i).symm.trans hv
  written _ _ := (writtenOver_of_none rfl).2 rfl
  staged _ := staged_of_clean (contains_of_clean h)
  canonical _ _ _ hv := nomatch hv

variable {σ : Type} [Store σ] {o o' : Resident} {c : Class} {start slots slots' : Slots}
  {values : Table UInt32 Value} {held : σ → Slots} {s : σ}

omit [Store σ] in
theorem Overwrites.fate (h : o.Overwrites c start values slots) (hfate : o.Fate slots o' slots') :
    o'.Overwrites c start values slots' := by
  cases hfate with
  | waits => exact h
  | @written b hb =>
    have hclean := isDirty_settle hb
    refine ⟨h.schema, ⟨[], noted_of_clean (contains_of_clean hclean)⟩, fun i v hv => ?_,
      fun i _ => ?_, fun _ => staged_of_clean (contains_of_clean hclean), h.canonical⟩
    · cases (get?_pending_of_clean hclean i).symm.trans hv
    · cases hpayload : b.get? i with
      | some payload =>
        obtain ⟨v, f, hv, hf, hencode⟩ := exists_of_get?_batch hb hpayload
        refine (writtenOver_of_some (h.pending i v hv)).2 ⟨f, payload, h.schema ▸ hf, hencode, ?_⟩
        rw [Table.get?_merge, hpayload, Option.some_or]
      | none =>
        have hpending : o.pending.get? i = none := by
          rw [get?_pending, ← contains_batch hb, Table.get?_eq_none_iff.1 hpayload]
          rfl
        have hwritten := h.written i hpending
        unfold WrittenOver at hwritten ⊢
        rw [Table.get?_merge, hpayload, Option.none_or]
        exact hwritten

/-- A request that neither forgets a field nor flushes sets one field at most. -/
theorem marked_cases (c : Class) {r : Request} (hflush : r ≠ .flush)
    (hforget : ∀ name, r ≠ .invalidate name) (out : Outcome StateError r.Answer) :
    r.marked c out = [] ∨ ∃ i v, r.marked c out = [.set i v] := by
  have hmarks : ∀ (f? : Option Field) (v : Value),
      (f?.toList.map fun f => Mark.set f.index v) = [] ∨
        ∃ i w, (f?.toList.map fun f => Mark.set f.index v) = [.set i w] := by
    intro f? v
    cases f? with
    | none => exact .inl rfl
    | some f => exact .inr ⟨_, _, rfl⟩
  cases out with
  | fail e => exact .inl rfl
  | crash => exact .inl rfl
  | ok a =>
    cases r with
    | flush => exact absurd rfl hflush
    | invalidate name => exact absurd rfl (hforget name)
    | set | write | setReference | clearReference => exact hmarks _ _
    | get | read | reference | isDirty | dirtyFields | asReference | phase | state => exact .inl rfl

theorem Overwrites.keep (h : o.Overwrites c start values slots) {ms : List Mark}
    (hchange : Change o o') (hnoted : o'.Noted ms) (hpending : o'.pending = o.pending) :
    o'.Overwrites c start values slots where
  schema := hchange.schema.trans h.schema
  noted := ⟨ms, hnoted⟩
  pending := hpending ▸ h.pending
  written := hpending ▸ h.written
  staged hproper := (h.staged hproper).change (h.schema ▸ hproper) hchange
  canonical := h.canonical

/-- A field that is set is set over what was in its slot. -/
theorem Overwrites.set (h : o.Overwrites c start values slots) {ms : List Mark}
    (hchange : Change o o') {i : UInt32} {v : Value} (hnoted : o'.Noted ms)
    (hpending : o'.pending = o.pending.insert i v) :
    o'.Overwrites c start (values.insert i v) slots := by
  have hstaged : (∀ f ∈ c.fields, f.shape.Proper) → o'.Staged := fun hproper =>
    (h.staged hproper).change (h.schema ▸ hproper) hchange
  have hschema : o'.schema = c := hchange.schema.trans h.schema
  refine ⟨hschema, ⟨ms, hnoted⟩, fun j w hw => ?_, fun j hj => ?_, hstaged,
    fun hproper j w hw => ?_⟩
  · rw [hpending, Table.get?_insert] at hw
    rw [Table.get?_insert]
    split at hw
    case isTrue heq => rwa [if_pos heq]
    case isFalse hne =>
      rw [if_neg hne]
      exact h.pending j w hw
  · rw [hpending, Table.get?_insert] at hj
    split at hj
    · cases hj
    case isFalse hne => exact (writtenOver_insert hne v).2 (h.written j hj)
  · rw [Table.get?_insert] at hw
    split at hw
    case isFalse => exact h.canonical hproper j w hw
    case isTrue heq =>
      obtain rfl : v = w := Option.some.inj hw
      have hvalue : o'.pending.get? j = some v := by
        rw [hpending, Table.get?_insert, if_pos heq]
      rw [get?_pending] at hvalue
      split at hvalue
      case isFalse => cases hvalue
      case isTrue hdirty =>
        obtain ⟨f, x, hf, hx, hcanonical⟩ := hstaged hproper j hdirty
        rw [cached, hx] at hvalue
        cases hvalue
        exact ⟨f, hschema ▸ hf, hcanonical⟩

theorem Overwrites.answer (h : o.Overwrites c start values (held s))
    (htracks : Tracks o.identity held) (registry : Registry) {r : Request}
    (hforget : ∀ name, r ≠ .invalidate name) :
    let x := r.run registry (o, s)
    x.2.1.Overwrites c start ((r.marked c x.1).foldl Mark.assign values) (held x.2.2) := by
  obtain ⟨ms, hms⟩ := h.noted
  have hanswer := hms.answer registry r s
  have hchange := r.change (o := o) registry s
  rw [h.schema] at hanswer
  by_cases hflush : r = .flush
  · subst hflush
    have hmarked : ∀ out : Outcome StateError Nat,
        (Request.flush.marked c out).foldl Mark.assign values = values := by
      intro out
      cases out <;> rfl
    dsimp only
    rw [hmarked]
    exact h.fate (fate_flush htracks s)
  · have hstore : held (r.run registry (o, s)).2.2 = held s :=
      htracks.looks (Request.looks_store registry hflush o s)
    dsimp only
    rw [hstore]
    generalize r.run registry (o, s) = x at hanswer hchange
    have hpending := hanswer.pending
    rw [Mark.awaiting_append, ← hms.pending] at hpending
    rcases marked_cases c hflush hforget x.1 with hmarked | ⟨i, v, hmarked⟩
    · rw [hmarked] at hpending ⊢
      exact h.keep hchange hanswer hpending
    · rw [hmarked] at hpending ⊢
      exact h.set hchange hanswer hpending

end Resident
end ObjectSpace
