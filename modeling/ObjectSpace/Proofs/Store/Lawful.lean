import ObjectSpace.Proofs.Table
import ObjectSpace.Store.Memory
import ObjectSpace.Store.Unreliable

/-!
# Stores that keep what they are given

A lawful store holds slots for every object. Reading answers what is held and changes nothing; a
batch is merged into the slots of its object, and a deletion clears them. An operation that does not
succeed leaves all slots as they were, and one that does leaves those of other objects.
-/

namespace ObjectSpace

class LawfulStore (σ : Type) [Store σ] where
  slots : σ → Identity → Slots
  get_answer {id : Identity} {i : UInt32} {s s' : σ} {slot : Option ByteArray} :
    Store.get id i s = (.ok slot, s') → slot = (slots s id).get? i
  get_slots {id : Identity} {i : UInt32} {s s' : σ} {o : Outcome StoreError (Option ByteArray)} :
    Store.get id i s = (o, s') → slots s' = slots s
  put_slots {id : Identity} {batch : Slots} {s s' : σ} :
    Store.put id batch s = (.ok (), s') → slots s' id = (slots s id).merge batch
  put_other {id id' : Identity} {batch : Slots} {s s' : σ} {o : Outcome StoreError Unit} :
    Store.put id batch s = (o, s') → id' ≠ id → slots s' id' = slots s id'
  put_failed {id : Identity} {batch : Slots} {s s' : σ} {o : Outcome StoreError Unit} :
    Store.put id batch s = (o, s') → o ≠ .ok () → slots s' = slots s
  delete_slots {id : Identity} {s s' : σ} {existed : Bool} :
    Store.delete id s = (.ok existed, s') → slots s' id = {}
  delete_other {id id' : Identity} {s s' : σ} {o : Outcome StoreError Bool} :
    Store.delete id s = (o, s') → id' ≠ id → slots s' id' = slots s id'
  delete_failed {id : Identity} {s s' : σ} {o : Outcome StoreError Bool} :
    Store.delete id s = (o, s') → (∀ existed, o ≠ .ok existed) → slots s' = slots s

namespace Memory

theorem slots_write (m : Memory) (id id' : Identity) (batch : Slots) :
    (m.write id batch).slots id' = if id' = id then (m.slots id).merge batch else m.slots id' := by
  simp only [write, slots, Table.get?_insert]
  split <;> rfl

theorem put_eq {id : Identity} {batch : Slots} {m m' : Memory} {o : Outcome StoreError Unit}
    (h : put id batch m = (o, m')) :
    (∃ e, o = .fail e ∧ m' = m) ∨ o = .ok () ∧
      ∀ id', m'.slots id' = if id' = id then (m.slots id).merge batch else m.slots id' := by
  unfold put at h
  split at h
  · cases h
    exact .inl ⟨_, rfl, rfl⟩
  · split at h
    case isTrue hempty =>
      cases h
      refine .inr ⟨rfl, fun id' => ?_⟩
      rw [Table.merge_of_isEmpty hempty]
      split
      case isTrue hid => rw [hid]
      case isFalse => rfl
    case isFalse =>
      cases h
      exact .inr ⟨rfl, fun id' => slots_write m id id' batch⟩

theorem slots_delete {id : Identity} {m m' : Memory} {o : Outcome StoreError Bool}
    (h : delete id m = (o, m')) :
    o = .ok (m.objects.contains id) ∧
      ∀ id', m'.slots id' = if id' = id then {} else m.slots id' := by
  cases h
  refine ⟨rfl, ?_⟩
  intro id'
  simp only [slots, Table.get?_erase_eq]
  split <;> rfl

instance : LawfulStore Memory where
  slots := slots
  get_answer h := by
    cases h
    rfl
  get_slots h := by
    cases h
    rfl
  put_slots {id batch s s'} h := by
    rcases put_eq h with ⟨e, he, _⟩ | ⟨_, hslots⟩
    · cases he
    · rw [hslots, if_pos rfl]
  put_other h hne := by
    rcases put_eq h with ⟨e, _, rfl⟩ | ⟨_, hslots⟩
    · rfl
    · rw [hslots, if_neg hne]
  put_failed h ho := by
    rcases put_eq h with ⟨e, _, rfl⟩ | ⟨hok, _⟩
    · rfl
    · exact absurd hok ho
  delete_slots {id s s' existed} h := by
    rw [(slots_delete h).2, if_pos rfl]
  delete_other h hne := by
    rw [(slots_delete h).2, if_neg hne]
  delete_failed h ho := absurd (slots_delete h).1 (ho _)

end Memory

namespace Unreliable

variable {σ : Type}

/-- The store behind is not reached, or it alone decides. -/
theorem onBehind_of_check {α : Type} {faults : Faults → Table Identity Fault} {id : Identity}
    {r : Run σ StoreError α} {u u' : Unreliable σ} {o : Outcome StoreError α}
    (h : (check faults id >>= fun _ => onBehind r) u = (o, u')) :
    (∃ e, o = .fail e ∧ u'.behind = u.behind) ∨ r u.behind = (o, u'.behind) := by
  rw [Run.bind_apply, check] at h
  cases hf : (faults u.faults).get? id with
  | some f =>
    rw [hf] at h
    cases h
    exact .inl ⟨_, rfl, rfl⟩
  | none =>
    rw [hf] at h
    cases h
    exact .inr rfl

theorem put_behind [Store σ] {id : Identity} {batch : Slots} {u u' : Unreliable σ}
    {o : Outcome StoreError Unit} (h : Store.put id batch u = (o, u')) :
    (o ≠ .ok () ∧ u'.behind = u.behind) ∨
      Store.put id batch u.behind = (o, u'.behind) := by
  change (crashOnce >>= fun _ => check Faults.put id >>= fun _ => onBehind (Store.put id batch)) u =
    (o, u') at h
  rw [Run.bind_apply, crashOnce] at h
  by_cases hc : u.faults.crashesNext = true
  · rw [if_pos hc] at h
    cases h
    exact .inl ⟨by simp, rfl⟩
  · rw [if_neg hc] at h
    rcases onBehind_of_check h with ⟨e, rfl, hb⟩ | hr
    · exact .inl ⟨by simp, hb⟩
    · exact .inr hr

variable [Store σ] [LawfulStore σ]

instance : LawfulStore (Unreliable σ) where
  slots u := LawfulStore.slots u.behind
  get_answer h := by
    rcases onBehind_of_check h with ⟨e, he, _⟩ | hr
    · cases he
    · exact LawfulStore.get_answer hr
  get_slots h := by
    rcases onBehind_of_check h with ⟨e, _, hb⟩ | hr
    · rw [hb]
    · exact LawfulStore.get_slots hr
  put_slots h := by
    rcases put_behind h with ⟨ho, _⟩ | hr
    · exact absurd rfl ho
    · exact LawfulStore.put_slots hr
  put_other h hne := by
    rcases put_behind h with ⟨_, hb⟩ | hr
    · rw [hb]
    · exact LawfulStore.put_other hr hne
  put_failed h ho := by
    rcases put_behind h with ⟨_, hb⟩ | hr
    · rw [hb]
    · exact LawfulStore.put_failed hr ho
  delete_slots h := by
    rcases onBehind_of_check h with ⟨e, he, _⟩ | hr
    · cases he
    · exact LawfulStore.delete_slots hr
  delete_other h hne := by
    rcases onBehind_of_check h with ⟨e, _, hb⟩ | hr
    · rw [hb]
    · exact LawfulStore.delete_other hr hne
  delete_failed h ho := by
    rcases onBehind_of_check h with ⟨e, _, hb⟩ | hr
    · rw [hb]
    · exact LawfulStore.delete_failed hr ho

end Unreliable
end ObjectSpace
