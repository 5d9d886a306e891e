import Mathlib.Data.List.Nodup
import ObjectSpace.Proofs.Class.Declaration
import ObjectSpace.Proofs.Table

/-!
# The methods of a class

A declaration without a fault gives its methods different names, and each method parameters that fit
its call shape and have different names. Methods and accessors are found by their names.
-/

namespace ObjectSpace

namespace Method

variable {m : Method}

theorem params_eq_nil (h : m.fault? = none) (hshape : m.shape = .noArguments) :
    m.params = [] := by
  have htakes := (fault?_eq_none_iff.1 h).takes
  rw [hshape] at htakes
  exact List.length_eq_zero_iff.1 htakes

/-- A method that takes a single argument has one parameter, which is found as such. -/
theorem exists_single (h : m.fault? = none)
    (hshape : m.shape = .single ∨ m.shape = .singleWithMeta) :
    ∃ p, m.params = [p] ∧ m.single? = some p := by
  have htakes := (fault?_eq_none_iff.1 h).takes
  have hone : m.params.length = 1 := by
    rcases hshape with hshape | hshape <;> rwa [hshape] at htakes
  obtain ⟨p, hp⟩ := List.length_eq_one_iff.1 hone
  refine ⟨p, hp, ?_⟩
  unfold single?
  rcases hshape with hshape | hshape <;> rw [hshape, hp] <;> rfl

theorem nodup_params (h : m.fault? = none) : (m.params.map Member.name).Nodup :=
  (fault?_eq_none_iff.1 h).names

/-- Whatever the call shape, the defaults of the parameters are checked. -/
theorem defaultFits_of_fault? (h : m.fault? = none) : ∀ p ∈ m.params, p.defaultFits = true :=
  fun p hp => Param.defaultFits_iff.2 ((fault?_eq_none_iff.1 h).defaults p hp)

end Method

namespace Class

variable {c : Class} {name : String}

theorem nodup_methods (c : Class) : (c.declaration.methods.map Method.name).Nodup :=
  c.sound.names.of_append_left.of_append_right

theorem nodup_accessors (c : Class) : (c.declaration.accessors.map Accessor.name).Nodup :=
  c.sound.names.of_append_right

/-- A method is found by its name alone. -/
theorem method?_eq_some_iff {m : Method} :
    c.method? name = some m ↔ m ∈ c.declaration.methods ∧ m.name = name :=
  Table.get?_ofList_map c.nodup_methods

theorem accessor?_eq_some_iff {a : Accessor} :
    c.accessor? name = some a ↔ a ∈ c.declaration.accessors ∧ a.name = name :=
  Table.get?_ofList_map c.nodup_accessors

theorem fault?_of_mem {m : Method} (h : m ∈ c.declaration.methods) : m.fault? = none :=
  Method.fault?_eq_none_iff.2 (c.sound.methods m h)

theorem fault?_of_method? {m : Method} (h : c.method? name = some m) : m.fault? = none :=
  fault?_of_mem (method?_eq_some_iff.1 h).1

end Class
end ObjectSpace
