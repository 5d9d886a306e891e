import ObjectSpace.Codec.Coerce
import ObjectSpace.Proofs.Success

/-!
# Reading scalars

The documents and texts that are read as one value, and the values that they are read as, whatever
the path.
-/

namespace ObjectSpace
namespace Shape

open Success

theorem checkClass_eq_ok {classId path : String} {id : Identity} :
    checkClass classId path id = .ok () ↔ id.classId = classId := by
  unfold checkClass
  split <;> simp_all

theorem writable_eq_ok {path : String} {id : Identity} :
    writable path id = .ok () ↔ id.validate = .ok () := mapError_eq_ok

theorem readReference_eq_ok {classId path : String} {j : Json} {v : Value} :
    readReference classId path j = .ok v ↔ ∃ members id, j = .obj members ∧ v = .ref id ∧
      Identity.ofJsonMembers members = .ok id ∧ id.classId = classId ∧ id.validate = .ok () := by
  constructor
  · intro h
    unfold readReference at h
    split at h
    case h_1 members =>
      obtain ⟨id, hid, h⟩ := bind_eq_ok.1 h
      obtain ⟨_, hclass, h⟩ := bind_eq_ok.1 h
      obtain ⟨_, hwrite, h⟩ := bind_eq_ok.1 h
      cases h
      exact ⟨members, id, rfl, rfl, mapError_eq_ok.1 hid, checkClass_eq_ok.1 hclass,
        writable_eq_ok.1 hwrite⟩
    case h_2 => cases h
  · rintro ⟨members, id, rfl, rfl, hid, hclass, hwrite⟩
    have hchecked : checkClass classId path id = .ok () := checkClass_eq_ok.2 hclass
    have hwritable : writable path id = .ok () := writable_eq_ok.2 hwrite
    refine bind_eq_ok.2 ⟨id, mapError_eq_ok.2 hid, ?_⟩
    exact bind_eq_ok.2 ⟨(), hchecked, bind_eq_ok.2 ⟨(), hwritable, rfl⟩⟩

theorem readText_eq_ok {s : Shape} {path text : String} {j : Json} :
    readText s path j = .ok text ↔ j = .str text := by
  cases j <;> simp [readText]

theorem bytesOfText_eq_ok {path text : String} {v : Value} :
    bytesOfText path text = .ok v ↔ ∃ b, Hex.decode text = .ok b ∧ v = .bytes b := by
  unfold bytesOfText
  cases Hex.decode text <;> simp [eq_comm]

theorem instantOfText_eq_ok {path text : String} {v : Value} :
    instantOfText path text = .ok v ↔ ∃ t, Instant.ofText? text = some t ∧ v = .instant t := by
  unfold instantOfText
  cases Instant.ofText? text <;> simp [eq_comm]

theorem uuidOfText_eq_ok {reason path text : String} {v : Value} :
    uuidOfText reason path text = .ok v ↔ ∃ u, Uuid.ofText? text = some u ∧ v = .uuid u := by
  unfold uuidOfText
  cases Uuid.ofText? text <;> simp [eq_comm]

theorem choiceOfText_eq_ok {name : String} {variants : List String} {path text : String}
    {v : Value} :
    choiceOfText name variants path text = .ok v ↔ text ∈ variants ∧ v = .str text := by
  unfold choiceOfText
  by_cases h : text ∈ variants <;> simp [h, eq_comm]

theorem readInt_eq_ok {path : String} {j : Json} {v : Value} :
    readInt path j = .ok v ↔ ∃ i n, j = .int i ∧ int64? i = some n ∧ v = .int n := by
  cases j with
  | int i =>
    rw [readInt]
    cases h : int64? i <;> simp [h, eq_comm]
  | _ => simp [readInt]

end Shape
end ObjectSpace
