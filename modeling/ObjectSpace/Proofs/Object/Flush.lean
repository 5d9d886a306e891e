import ObjectSpace.Proofs.Object.Batch
import ObjectSpace.Proofs.Store.Write

/-!
# What a flush does

A flush asks the store for one write at most. If that succeeds the object is settled, and if not the
object stays as it is.
-/

namespace ObjectSpace

namespace Resident

variable {σ : Type} [Store σ] {o : Resident} {s s' : σ}

/-- What a flush asks of the store. -/
def write? (o : Resident) : Option Write :=
  if o.isDirty then
    match o.batch with
    | .ok b => some (.put o.identity b)
    | .error _ => none
  else none

/-- A dirty object is flushed if its values can be encoded and the store takes the batch. -/
def flushes (o : Resident) (s : σ) : Bool := o.write?.any fun w => w.succeeds s

/-- The object behind a flush. -/
def flushed (o : Resident) (s : σ) : Resident := (flush (o, s)).2.1

/-- An object is clean, or it cannot be encoded, or it asks for its batch to be put. -/
theorem write?_cases (o : Resident) :
    (o.isDirty = false ∧ o.write? = none) ∨
    (∃ e, o.isDirty = true ∧ o.batch = .error e ∧ o.write? = none) ∨
    ∃ b, o.isDirty = true ∧ o.batch = .ok b ∧ o.write? = some (.put o.identity b) := by
  unfold write?
  cases hd : o.isDirty with
  | false => exact .inl ⟨rfl, rfl⟩
  | true =>
    cases hb : o.batch with
    | error e => exact .inr (.inl ⟨e, rfl, rfl, rfl⟩)
    | ok b => exact .inr (.inr ⟨b, rfl, rfl, rfl⟩)

theorem write?_of_clean (h : o.isDirty = false) : o.write? = none := by
  unfold write?
  rw [h]
  rfl

theorem flushes_of_clean (h : o.isDirty = false) : o.flushes s = false := by
  rw [flushes, write?_of_clean h]
  rfl

theorem write?_eq_some {w : Write} (h : o.write? = some w) :
    o.isDirty = true ∧ ∃ b, o.batch = .ok b ∧ w = .put o.identity b := by
  rcases o.write?_cases with ⟨_, hw⟩ | ⟨e, _, _, hw⟩ | ⟨b, hd, hb, hw⟩
  · rw [hw] at h
    cases h
  · rw [hw] at h
    cases h
  · rw [hw] at h
    cases h
    exact ⟨hd, b, hb, rfl⟩

theorem flush_of_clean (h : o.isDirty = false) : flush (o, s) = (.ok 0, (o, s)) := by
  unfold flush
  dsimp only
  rw [h]
  rfl

theorem flush_of_not_encoded (h : o.isDirty = true) {e : StateError} (hb : o.batch = .error e) :
    flush (o, s) = (.fail e, (o, s)) := by
  unfold flush
  dsimp only
  rw [h, hb]
  rfl

theorem flush_put (h : o.isDirty = true) {b : Slots} (hb : o.batch = .ok b) :
    flush (o, s) = match Store.put o.identity b s with
      | (.ok (), s) => (.ok b.size, (o.settle b, s))
      | (.fail e, s) => (.fail (.store e), (o, s))
      | (.crash, s) => (.crash, (o, s)) := by
  unfold flush
  dsimp only
  rw [h, hb]
  rfl

theorem isDirty_settle {b : Slots} (hb : o.batch = .ok b) : (o.settle b).isDirty = false := by
  unfold isDirty FieldState.isDirty
  rw [dirty_settle hb]
  rfl

/-- A flush that succeeds leaves nothing to write. -/
theorem clean_of_flush {o' : Resident} {written : Nat}
    (h : flush (o, s) = (.ok written, (o', s'))) : o'.isDirty = false := by
  rcases o.write?_cases with ⟨hd, _⟩ | ⟨e, hd, hb, _⟩ | ⟨b, hd, hb, _⟩
  · rw [flush_of_clean hd] at h
    cases h
    exact hd
  · rw [flush_of_not_encoded hd hb] at h
    cases h
  · rw [flush_put hd hb] at h
    split at h <;> cases h
    exact isDirty_settle hb

theorem flush_of_batch (h : o.isDirty = true) {b : Slots} (hb : o.batch = .ok b) :
    flush (o, s) = match ((Write.put o.identity b).perform s).1 with
      | .ok _ => (.ok o.state.dirty.size, (o.settle b, (Write.put o.identity b).after s))
      | .fail e => (.fail (.store e), (o, (Write.put o.identity b).after s))
      | .crash => (.crash, (o, (Write.put o.identity b).after s)) := by
  have hsize : b.size = o.state.dirty.size := by
    have hkeys := congrArg List.length (keys_batch hb)
    rwa [Table.keys, Table.keys, List.length_map, List.length_map] at hkeys
  unfold Write.after
  rw [flush_put h hb, Write.perform_put, hsize]
  rcases Store.put o.identity b s with ⟨out, s'⟩
  cases out <;> rfl

/-- A batch that the store takes is flushed. -/
theorem flush_ok {b : Slots} (hb : o.batch = .ok b)
    (hput : (Store.put o.identity b s).1 = .ok ()) : ∃ n, (flush (o, s)).1 = .ok n := by
  cases hd : o.isDirty with
  | false => exact ⟨0, by rw [flush_of_clean hd]⟩
  | true =>
    rw [flush_put hd hb]
    rcases hstored : Store.put o.identity b s with ⟨out, s'⟩
    rw [hstored] at hput
    obtain rfl : out = .ok () := hput
    exact ⟨_, rfl⟩

theorem store_flush : (flush (o, s)).2.2 = Write.afterAll o.write?.toList s := by
  rcases o.write?_cases with ⟨hd, hw⟩ | ⟨e, hd, hb, hw⟩ | ⟨b, hd, hb, hw⟩
  · rw [flush_of_clean hd, hw]
    rfl
  · rw [flush_of_not_encoded hd hb, hw]
    rfl
  · rw [flush_of_batch hd hb, hw]
    split <;> rfl

theorem isOk_flush (hd : o.isDirty = true) : (flush (o, s)).1.isOk = o.flushes s := by
  unfold flushes
  rcases o.write?_cases with ⟨hd', _⟩ | ⟨e, _, hb, hw⟩ | ⟨b, _, hb, hw⟩
  · rw [hd] at hd'
    cases hd'
  · rw [flush_of_not_encoded hd hb, hw]
    rfl
  · rw [flush_of_batch hd hb, hw]
    change _ = ((Write.put o.identity b).perform s).1.isOk
    cases ((Write.put o.identity b).perform s).1 <;> rfl

theorem flushed_of_flushes {w : Write} (hw : o.write? = some w) (h : w.succeeds s = true) :
    ∃ b, o.batch = .ok b ∧ w = .put o.identity b ∧ o.flushed s = o.settle b := by
  obtain ⟨hd, b, hb, rfl⟩ := write?_eq_some hw
  obtain ⟨u, hu⟩ := Outcome.isOk_iff.1 h
  refine ⟨b, hb, rfl, ?_⟩
  unfold flushed
  rw [flush_of_batch hd hb, hu]

/-- What is not flushed stays as it is. -/
theorem flushed_of_not_flushes (h : o.flushes s = false) : o.flushed s = o := by
  unfold flushed
  rcases o.write?_cases with ⟨hd, hw⟩ | ⟨e, hd, hb, hw⟩ | ⟨b, hd, hb, hw⟩
  · rw [flush_of_clean hd]
  · rw [flush_of_not_encoded hd hb]
  · rw [flush_of_batch hd hb]
    rw [flushes, hw] at h
    change ((Write.put o.identity b).perform s).1.isOk = false at h
    cases hp : ((Write.put o.identity b).perform s).1 with
    | ok u =>
      rw [hp] at h
      cases h
    | fail e => rfl
    | crash => rfl

theorem exists_write_of_flushes (h : o.flushes s = true) :
    ∃ w, o.write? = some w ∧ w.succeeds s = true := (Option.any_eq_true _ _).1 h

theorem identity_flushed : (o.flushed s).identity = o.identity := by
  by_cases h : o.flushes s = true
  · obtain ⟨w, hw, hs⟩ := exists_write_of_flushes h
    obtain ⟨b, _, _, ho⟩ := flushed_of_flushes hw hs
    rw [ho]
    rfl
  · rw [flushed_of_not_flushes (Bool.eq_false_iff.2 h)]

/-- A flush hangs on nothing of the store but what it says to the batch. -/
theorem flush_congr
    (h : ∀ b, ((Write.put o.identity b).perform s').1 = ((Write.put o.identity b).perform s).1) :
    (flush (o, s')).1 = (flush (o, s)).1 ∧ o.flushed s' = o.flushed s := by
  unfold flushed
  rcases o.write?_cases with ⟨hd, _⟩ | ⟨e, hd, hb, _⟩ | ⟨b, hd, hb, _⟩
  · rw [flush_of_clean hd, flush_of_clean hd]
    exact ⟨rfl, rfl⟩
  · rw [flush_of_not_encoded hd hb, flush_of_not_encoded hd hb]
    exact ⟨rfl, rfl⟩
  · rw [flush_of_batch hd hb, flush_of_batch hd hb, h b]
    split <;> exact ⟨rfl, rfl⟩

/-- What an object asks for behind a flush is what it did not get. -/
theorem write?_flushed : (o.flushed s).write? = o.write?.filter fun w => !w.succeeds s := by
  by_cases h : o.flushes s = true
  · obtain ⟨w, hw, hs⟩ := exists_write_of_flushes h
    obtain ⟨b, hb, _, ho⟩ := flushed_of_flushes hw hs
    have hclean : (o.settle b).isDirty = false := by
      unfold isDirty FieldState.isDirty
      rw [dirty_settle hb]
      rfl
    rw [ho, write?_of_clean hclean, hw, Option.filter_some, hs]
    rfl
  · have hf : o.flushes s = false := Bool.eq_false_iff.2 h
    rw [flushed_of_not_flushes hf]
    unfold flushes at hf
    cases hw : o.write? with
    | none => rfl
    | some w =>
      rw [hw] at hf
      have hs : w.succeeds s = false := hf
      rw [Option.filter_some, hs]
      rfl

section

variable [LawfulStore σ]

theorem batch_of_clean (h : o.isDirty = false) : o.batch = .ok {} := by
  have hnone : o.pending.entries = [] := by
    have hempty := o.isEmpty_pending
    rw [h] at hempty
    exact List.isEmpty_iff.1 hempty
  rw [batch_eq_ok, hnone]
  rfl

/-- Behind a flush that succeeds the slots of the object hold its batch. -/
theorem exists_batch_of_flush {n : Nat} (h : (flush (o, s)).1 = .ok n) :
    ∃ b, o.batch = .ok b ∧ ∀ id, LawfulStore.slots (flush (o, s)).2.2 id =
      if id = o.identity then (LawfulStore.slots s id).merge b else LawfulStore.slots s id := by
  rcases o.write?_cases with ⟨hd, _⟩ | ⟨e, hd, hb, _⟩ | ⟨b, hd, hb, _⟩
  · refine ⟨{}, batch_of_clean hd, fun id => ?_⟩
    rw [flush_of_clean hd, Table.merge_of_isEmpty rfl, ite_self]
  · rw [flush_of_not_encoded hd hb] at h
    cases h
  · refine ⟨b, hb, fun id => ?_⟩
    rw [flush_put hd hb] at h ⊢
    rcases hput : Store.put o.identity b s with ⟨out, s'⟩
    rw [hput] at h
    cases out with
    | ok u =>
      change LawfulStore.slots s' id = _
      split
      case isTrue hid =>
        rw [hid]
        exact LawfulStore.put_slots hput
      case isFalse hid => exact LawfulStore.put_other hput hid
    | fail e => cases h
    | crash => cases h

/-- Behind a flush that succeeds the slot of a dirty field holds the encoding of its value. -/
theorem exists_slot_of_flush {n : Nat} (h : (flush (o, s)).1 = .ok n) {i : UInt32} {v : Value}
    (hdirty : o.state.dirty.contains i = true) (hcached : o.state.cache.get? i = some v) :
    ∃ f payload, o.schema.fieldAt? i = some f ∧ f.shape.encode f.name v = .ok payload ∧
      (LawfulStore.slots (flush (o, s)).2.2 o.identity).get? i = some payload := by
  obtain ⟨b, hb, hslots⟩ := exists_batch_of_flush h
  obtain ⟨f, payload, hf, hencode, hpayload⟩ := exists_payload_of_batch hb hdirty hcached
  refine ⟨f, payload, hf, hencode, ?_⟩
  rw [hslots, if_pos rfl, Table.get?_merge, hpayload, Option.some_or]

/-- A flush that does not succeed leaves all slots as they were. -/
theorem slots_of_flush (h : (flush (o, s)).1.isOk = false) :
    LawfulStore.slots (flush (o, s)).2.2 = LawfulStore.slots s := by
  rcases o.write?_cases with ⟨hd, _⟩ | ⟨e, hd, hb, _⟩ | ⟨b, hd, hb, _⟩
  · rw [flush_of_clean hd]
  · rw [flush_of_not_encoded hd hb]
  · rw [flush_put hd hb] at h ⊢
    rcases hput : Store.put o.identity b s with ⟨out, s'⟩
    rw [hput] at h
    cases out with
    | ok u => cases h
    | fail e => exact LawfulStore.put_failed hput (by simp)
    | crash => exact LawfulStore.put_failed hput (by simp)

end

variable [IndependentStore σ]

theorem flush_not_crash (h : IndependentStore.calm s) : (flush (o, s)).1 ≠ .crash := by
  rcases o.write?_cases with ⟨hd, _⟩ | ⟨e, hd, hb, _⟩ | ⟨b, hd, hb, _⟩
  · rw [flush_of_clean hd]
    simp
  · rw [flush_of_not_encoded hd hb]
    simp
  · rw [flush_of_batch hd hb]
    have hput := IndependentStore.not_crash (w := .put o.identity b) h
    split
    · simp
    · simp
    case h_3 hc => exact absurd hc hput

/-- A dirty object that is not flushed fails. -/
theorem exists_failure (h : IndependentStore.calm s) (hd : o.isDirty = true)
    (hf : o.flushes s = false) : ∃ e, (flush (o, s)).1 = .fail e := by
  have hcrash := flush_not_crash (o := o) h
  rw [← isOk_flush hd] at hf
  cases hout : (flush (o, s)).1 with
  | ok n =>
    rw [hout] at hf
    cases hf
  | fail e => exact ⟨e, rfl⟩
  | crash => exact absurd hout hcrash

end Resident
end ObjectSpace
