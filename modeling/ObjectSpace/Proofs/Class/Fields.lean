import ObjectSpace.Proofs.Class.Declaration
import ObjectSpace.Proofs.Ordered

/-!
# The fields of a class

A declaration without a fault gives its fields different indices, so a field that is found by its
name is also found by its index.
-/

namespace ObjectSpace

namespace Class

variable {c : Class}

theorem fields_perm (c : Class) : c.fields.Perm c.declaration.fields := Ordered.sort_perm _

theorem nodup_indices (c : Class) : (c.fields.map Field.index).Nodup :=
  ((c.fields_perm.map Field.index).nodup_iff).2 c.sound.indices

/-- The fields stand in the order of their indices, and no two have the same. -/
theorem increasing_fields (c : Class) : Ordered.Increasing (compareOn Field.index) c.fields :=
  Ordered.increasing_sort c.sound.indices

theorem nodup_fieldNames (c : Class) : (c.fields.map Field.name).Nodup :=
  ((c.fields_perm.map Field.name).nodup_iff).2 c.sound.names.of_append_left.of_append_left

theorem field?_eq_some_iff {name : String} {f : Field} :
    c.field? name = some f ↔ f ∈ c.fields ∧ f.name = name :=
  find?_key_eq_some_iff c.nodup_fieldNames

theorem mem_of_field? {name : String} {f : Field} (h : c.field? name = some f) : f ∈ c.fields :=
  (field?_eq_some_iff.1 h).1

/-- Fields are told apart by their indices. -/
theorem eq_of_index_eq {f g : Field} (hf : f ∈ c.fields) (hg : g ∈ c.fields)
    (h : f.index = g.index) : f = g := List.inj_on_of_nodup_map c.nodup_indices hf hg h

theorem fieldAt?_eq_some_iff {i : UInt32} {f : Field} :
    c.fieldAt? i = some f ↔ f ∈ c.fields ∧ f.index = i :=
  Ordered.search_eq_some_iff c.increasing_fields

/-- A class with one field, which holds a whole number. -/
def counter : Class := ⟨⟨"Counter", [.of "count" 0 .int none], [], []⟩, by decide⟩

end Class
end ObjectSpace
