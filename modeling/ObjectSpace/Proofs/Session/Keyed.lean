import ObjectSpace.Proofs.Table
import ObjectSpace.Session.Basic

/-!
# Sessions hold objects under their identities

A session begins without objects, and whatever is done to it, an object is held under its own
identity.
-/

namespace ObjectSpace
namespace Session

/-- Every object is held under its own identity. -/
def Keyed (s : Session) : Prop := ∀ id o, s.object? id = some o → o.identity = id

variable {s : Session}

/-- What holds of all objects and of one that is put among them. -/
theorem forall_object_insert {p : Identity → Resident → Prop}
    (h : ∀ id o, s.object? id = some o → p id o) {id : Identity} {o : Resident} (ho : p id o)
    (deletions : KeySet Identity) : ∀ id' o', Session.object?
      { s with objects := s.objects.insert id o, deletions := deletions } id' = some o' →
        p id' o' := by
  intro id' o' h'
  change (s.objects.insert id o).get? id' = some o' at h'
  rw [Table.get?_insert] at h'
  split at h'
  case isTrue hid =>
    cases h'
    rw [hid]
    exact ho
  case isFalse => exact h id' o' h'

theorem forall_object_delete {p : Identity → Resident → Prop}
    (h : ∀ id o, s.object? id = some o → p id o) (id : Identity) :
    ∀ id' o', (s.delete id).2.object? id' = some o' → p id' o' := by
  intro id' o' h'
  change (s.objects.erase id).get? id' = some o' at h'
  rw [Table.get?_erase_eq] at h'
  split at h'
  · cases h'
  · exact h id' o' h'

theorem keyed_empty (partition : UInt32) : (empty partition).Keyed := fun _ _ h => nomatch h

theorem Keyed.insert (h : s.Keyed) {id : Identity} {o : Resident} (ho : o.identity = id)
    (deletions : KeySet Identity) :
    Keyed { s with objects := s.objects.insert id o, deletions := deletions } :=
  forall_object_insert h ho deletions

theorem Keyed.delete (h : s.Keyed) (id : Identity) : (s.delete id).2.Keyed :=
  forall_object_delete h id

theorem Keyed.putBack (h : s.Keyed) (o : Resident) : (s.putBack o).Keyed := h.insert rfl _

end Session
end ObjectSpace
