import ObjectSpace.Proofs.Class.Fields
import ObjectSpace.Proofs.Class.Methods

/-!
# The tables of a class

A class is built from a declaration exactly if the declaration is sound. Its fields are then the
declared ones in the order of their indices, and every member is found, unchanged, by what it was
declared under.
-/

namespace ObjectSpace

namespace Class

/-- The class lists and finds the members of the declaration, and no others. -/
structure Tabulates (c : Class) (d : Declaration) : Prop where
  id : c.id = d.classId
  fields : c.fields.Perm d.fields
  ordered : c.fields.Pairwise fun f g => f.index < g.index
  field : ∀ name f, c.field? name = some f ↔ f ∈ d.fields ∧ f.name = name
  fieldAt : ∀ i f, c.fieldAt? i = some f ↔ f ∈ d.fields ∧ f.index = i
  method : ∀ name m, c.method? name = some m ↔ m ∈ d.methods ∧ m.name = name
  accessor : ∀ name a, c.accessor? name = some a ↔ a ∈ d.accessors ∧ a.name = name

theorem tabulates (c : Class) : c.Tabulates c.declaration where
  id := rfl
  fields := c.fields_perm
  ordered := c.increasing_fields.imp fun h => Std.compare_eq_lt.1 h
  field _ _ := by rw [field?_eq_some_iff, c.fields_perm.mem_iff]
  fieldAt _ _ := by rw [fieldAt?_eq_some_iff, c.fields_perm.mem_iff]
  method _ _ := method?_eq_some_iff
  accessor _ _ := accessor?_eq_some_iff

end Class

namespace Declaration

/-- Building a class checks just what `Sound` says, whatever the order of the members, and what is
built has all that was declared. -/
theorem build_exact (d : Declaration) : ((∃ c, d.build = .ok c) ↔ d.Sound) ∧
    ∀ c, d.build = .ok c → c.Tabulates d := by
  constructor
  · constructor
    · rintro ⟨c, hc⟩
      obtain rfl := build_eq_ok.1 hc
      exact c.sound
    · intro h
      exact ⟨⟨d, fault?_eq_none_iff.2 h⟩, build_eq_ok.2 rfl⟩
  · intro c hc
    obtain rfl := build_eq_ok.1 hc
    exact c.tabulates

/-- Two fields that are declared out of order, a method that one of them is raised by, and a way to
read it. -/
def thermostat : Declaration :=
  ⟨"Thermostat", [.of "target" 7 .int (some (.int 20)), .of "room" 2 .str none],
    [⟨"raise", .single, [⟨"by", .int, some (.int 1)⟩], .int, none⟩],
    [⟨"get_target", "target", .read⟩]⟩

theorem fault?_thermostat : thermostat.fault? = none := by decide

theorem build_exact_thermostat : thermostat.Sound ∧ ∃ c, thermostat.build = .ok c ∧
    c.Tabulates thermostat ∧ c.fields.map Field.index = [2, 7] := by
  have hbuild : thermostat.build = .ok ⟨thermostat, fault?_thermostat⟩ := build_eq_ok.2 rfl
  obtain ⟨hsound, htables⟩ := build_exact thermostat
  exact ⟨hsound.1 ⟨_, hbuild⟩, _, hbuild, htables _ hbuild, by decide⟩

end Declaration
end ObjectSpace
