import ObjectSpace.Proofs.Class.Declaration
import ObjectSpace.Proofs.Codec.Conforming
import ObjectSpace.Proofs.Codec.Null

/-!
# Fields without a default of their own

A field that declares no default begins with the zero of its shape. A zero has its shape, and a
shape without a zero is not nullable, so such a field is either right as it stands or has no default
at all; its default is never one of the wrong shape.
-/

namespace ObjectSpace

namespace Shape

/-! ## Zeros have their shapes -/

theorem firstZero?_eq (ss : List Shape) : firstZero? ss = ss.findSome? zero? := by
  induction ss with
  | nil => rfl
  | cons s ss ih =>
    rw [firstZero?, List.findSome?_cons, ih]
    cases s.zero? <;> rfl

theorem eachAccepts_of_allZeros? {ss : List Shape} {zs : List Value}
    (ih : ∀ s ∈ ss, ∀ z, s.zero? = some z → s.accepts z = true) (h : allZeros? ss = some zs) :
    eachAccepts ss zs = true := by
  induction ss generalizing zs with
  | nil =>
    cases h
    rfl
  | cons s ss ih' =>
    obtain ⟨hs, hss⟩ := List.forall_mem_cons.1 ih
    obtain ⟨z, hz, h⟩ := Option.bind_eq_some_iff.1 h
    obtain ⟨zs', hzs, h⟩ := Option.bind_eq_some_iff.1 h
    cases h
    rw [eachAccepts, hs z hz, ih' hss hzs, Bool.and_self]

/-- A member begins with its default, or else with the zero of its shape. -/
theorem forall₂_of_memberZeros? {declared : List (Member Shape)} {zs : List (String × Value)}
    (h : memberZeros? declared = some zs) :
    List.Forall₂ (fun d z => z.1 = d.name ∧ d.default.or d.shape.zero? = some z.2) declared zs := by
  induction declared generalizing zs with
  | nil =>
    cases h
    exact .nil
  | cons d ds ih =>
    obtain ⟨name, s, default⟩ := d
    cases default with
    | some z =>
      obtain ⟨zs', hzs, h⟩ := Option.bind_eq_some_iff.1 h
      cases h
      exact .cons ⟨rfl, rfl⟩ (ih hzs)
    | none =>
      obtain ⟨z, hz, h⟩ := Option.bind_eq_some_iff.1 h
      obtain ⟨zs', hzs, h⟩ := Option.bind_eq_some_iff.1 h
      cases h
      exact .cons ⟨rfl, hz⟩ (ih hzs)

theorem accepts_zero {s : Shape} (hs : s.Conforming) {z : Value} (h : s.zero? = some z) :
    s.accepts z = true := by
  induction s generalizing z with
  | int | bool | str | bytes | optional | list | set | map =>
    cases h
    rfl
  | float =>
    cases h
    decide
  | any =>
    cases h
    rfl
  | instant | uuid | reference => cases h
  | choice name variants =>
    obtain ⟨text, htext, rfl⟩ := Option.map_eq_some_iff.1 h
    exact List.contains_iff_mem.2 (List.mem_of_head? htext)
  | union alternatives ih =>
    rw [zero?, firstZero?_eq] at h
    obtain ⟨s, hmem, hz⟩ := List.exists_of_findSome?_eq_some h
    exact anyAccepts_iff.2 ⟨s, hmem, ih s hmem (fun n ds hp => hs n ds (.union hmem hp)) hz⟩
  | tuple elements ih =>
    obtain ⟨zs, hzs, rfl⟩ := Option.map_eq_some_iff.1 h
    refine eachAccepts_of_allZeros? (fun s hmem z hz => ?_) hzs
    exact ih s hmem (fun n ds hp => hs n ds (.tuple hmem hp)) hz
  | record name declared ih =>
    obtain ⟨zs, hzs, rfl⟩ := Option.map_eq_some_iff.1 h
    have hmembers : ConformingMembers declared := hs name declared .self
    refine accepts_ofMembers hmembers.nodup
      (forall₂_imp (forall₂_of_memberZeros? hzs) fun d hd m hm => ⟨hm.1, ?_⟩)
    rcases Option.or_eq_some_iff.1 hm.2 with hdefault | ⟨_, hz⟩
    · exact hmembers.default d hd m.2 hdefault
    · exact ih d hd (fun n ds hp => hs n ds (.member hd hp)) hz

/-- Null would be the zero of a nullable shape. -/
theorem isNullable_of_zero?_eq_none {s : Shape} (h : s.zero? = none) : s.isNullable = false := by
  induction s with
  | union alternatives ih =>
    rw [zero?, firstZero?_eq, List.findSome?_eq_none_iff] at h
    rw [isNullable, Bool.eq_false_iff, Ne, anyNullable_iff]
    rintro ⟨s, hmem, hs⟩
    rw [ih s hmem (h s hmem)] at hs
    cases hs
  | optional | any => cases h
  | _ => rfl

end Shape

namespace Declaration

open Shape

/-! ## What building says of a default -/

/-- The fields before this one have no fault, and it has a name and a slot of its own, so that its
default is checked next. -/
def Checks (d : Declaration) (f : Field) : Prop :=
  ∃ before after, d.fields = before ++ f :: after ∧ fieldFault? d.classId [] [] before = none ∧
    f.name ∉ before.map Field.name ∧ f.index ∉ before.map Field.index

theorem build_eq_error {d : Declaration} {e : SchemaError} :
    d.build = .error e ↔ d.fault? = some e := by
  unfold build
  split
  case h_1 h => simp [h]
  case h_2 e' h => simp [h]

section

variable {classId : String} {names : List String} {indices : List UInt32}

theorem fieldFault?_cons (f : Field) (fs : List Field) :
    fieldFault? classId names indices (f :: fs) = (fieldFault? classId names indices [f]).or
      (fieldFault? classId (f.name :: names) (f.index :: indices) fs) := by
  rw [fieldFault?, fieldFault?]
  split
  · rfl
  · split
    · rfl
    · split
      · rfl
      · split <;> rfl

/-- Behind fields without a fault the names and the slots that they have are taken. -/
theorem fieldFault?_append {before : List Field}
    (h : fieldFault? classId names indices before = none) (fields : List Field) :
    fieldFault? classId names indices (before ++ fields) =
      fieldFault? classId ((before.map Field.name).reverse ++ names)
        ((before.map Field.index).reverse ++ indices) fields := by
  induction before generalizing names indices with
  | nil => rfl
  | cons f fs ih =>
    rw [fieldFault?_cons, Option.or_eq_none_iff] at h
    rw [List.cons_append, fieldFault?_cons, h.1, Option.none_or, ih h.2]
    simp only [List.map_cons, List.reverse_cons, List.append_assoc, List.singleton_append]

/-- A fault is that of the first field that has one. -/
theorem exists_of_fieldFault? {fields : List Field} {e : SchemaError}
    (h : fieldFault? classId names indices fields = some e) :
    ∃ before f after, fields = before ++ f :: after ∧
      fieldFault? classId names indices before = none ∧
      fieldFault? classId ((before.map Field.name).reverse ++ names)
        ((before.map Field.index).reverse ++ indices) [f] = some e := by
  induction fields generalizing names indices with
  | nil => cases h
  | cons f fs ih =>
    rw [fieldFault?_cons] at h
    rcases Option.or_eq_some_iff.1 h with hf | ⟨hf, hfs⟩
    · exact ⟨[], f, fs, rfl, rfl, hf⟩
    · obtain ⟨before, g, after, rfl, hbefore, hg⟩ := ih hfs
      refine ⟨f :: before, g, after, rfl, ?_, ?_⟩
      · rw [fieldFault?_cons, hf, Option.none_or, hbefore]
      · simpa using hg

end

/-- A default that is checked either fits, or it is the fault of the declaration. -/
theorem Checks.build {d : Declaration} {f : Field} (h : d.Checks f) :
    f.shape.accepts f.default = true ∨ d.build = .error (if f.default.isNull
      then .missingDefault d.classId f.name else .invalidDefault d.classId f.name f.shape) := by
  obtain ⟨before, after, hfields, hbefore, hname, hindex⟩ := h
  by_cases hdefault : f.shape.accepts f.default = true
  · exact .inl hdefault
  · right
    have hfault : fieldFault? d.classId [] [] d.fields = some (if f.default.isNull
        then .missingDefault d.classId f.name else .invalidDefault d.classId f.name f.shape) := by
      rw [hfields, fieldFault?_append hbefore, fieldFault?]
      simp [hname, hindex, hdefault, apply_ite]
    rw [build_eq_error, fault?, hfault]
    rfl

theorem methodFault?_ne_invalidDefault {classId classId' name : String} {shape : Shape}
    {names : List String} {ms : List Method} :
    methodFault? classId names ms ≠ some (.invalidDefault classId' name shape) := by
  induction ms generalizing names with
  | nil => simp [methodFault?]
  | cons m ms ih =>
    rw [methodFault?]
    split
    · simp
    · split
      · simp
      · exact ih

theorem accessorFault?_ne_invalidDefault {classId classId' name : String} {shape : Shape}
    {fields names : List String} {as : List Accessor} :
    accessorFault? classId fields names as ≠ some (.invalidDefault classId' name shape) := by
  induction as generalizing names with
  | nil => simp [accessorFault?]
  | cons a as ih =>
    rw [accessorFault?]
    split
    · simp
    · split
      · exact ih
      · simp

/-- A default of the wrong shape is that of a field whose default was checked, and it is not null. -/
theorem exists_of_invalidDefault {d : Declaration} {classId name : String} {shape : Shape}
    (h : d.build = .error (.invalidDefault classId name shape)) :
    ∃ f, d.Checks f ∧ f.name = name ∧ f.shape = shape ∧ f.shape.accepts f.default = false ∧
      f.default.isNull = false := by
  have hfields : fieldFault? d.classId [] [] d.fields =
      some (.invalidDefault classId name shape) := by
    rw [build_eq_error, fault?] at h
    simpa [Option.or_eq_some_iff, methodFault?_ne_invalidDefault,
      accessorFault?_ne_invalidDefault] using h
  obtain ⟨before, f, after, hsplit, hbefore, hf⟩ := exists_of_fieldFault? hfields
  rw [fieldFault?] at hf
  split at hf
  · cases hf
  case isFalse hname =>
    split at hf
    · cases hf
    case isFalse hindex =>
      split at hf
      · cases hf
      case isFalse hdefault =>
        split at hf
        · cases hf
        case isFalse hnull =>
          cases hf
          exact ⟨f, ⟨before, after, hsplit, hbefore, by simpa using hname, by simpa using hindex⟩,
            rfl, rfl, Bool.eq_false_iff.2 hdefault, Bool.eq_false_iff.2 hnull⟩

/-- The zero of a shape has the shape, and a shape without a zero is not nullable. So the default
check passes for a field that declares no default, or finds that there is none, and what it finds to
be of the wrong shape is the default of another field. -/
theorem zero_legal {s : Shape} (hs : s.Conforming) :
    (∀ z, s.zero? = some z → s.accepts z = true) ∧
    (s.zero? = none → s.accepts .null = false) ∧
    ∀ (name : String) (index : UInt32), let f := Field.of name index s none
      (∀ d : Declaration, d.Checks f →
        s.accepts f.default = true ∨ d.build = .error (.missingDefault d.classId name)) ∧
      ∀ (d : Declaration) (classId name' : String) (shape : Shape),
        d.build = .error (.invalidDefault classId name' shape) →
          ∃ g, d.Checks g ∧ g.name = name' ∧ g.shape = shape ∧
            g.shape.accepts g.default = false ∧ g ≠ f := by
  have hzero : ∀ z, s.zero? = some z → s.accepts z = true := fun z hz => accepts_zero hs hz
  refine ⟨hzero, fun h => (accepts_null s).trans (isNullable_of_zero?_eq_none h), ?_⟩
  intro name index f
  have hdefault : f.shape.accepts f.default = true ∨ f.default = .null := by
    change s.accepts (s.zero?.getD .null) = true ∨ s.zero?.getD .null = .null
    cases hz : s.zero? with
    | some z => exact .inl (hzero z hz)
    | none => exact .inr rfl
  constructor
  · intro d hchecks
    rcases hdefault with hfits | hnull
    · exact .inl hfits
    · have hbuild := hchecks.build
      rw [hnull] at hbuild ⊢
      exact hbuild
  · intro d classId name' shape h
    obtain ⟨g, hchecks, hname, hshape, hrefused, hnull⟩ := exists_of_invalidDefault h
    refine ⟨g, hchecks, hname, hshape, hrefused, ?_⟩
    rintro rfl
    rcases hdefault with hfits | hdefault
    · rw [hfits] at hrefused
      cases hrefused
    · rw [hdefault] at hnull
      cases hnull

def box : List (Member Shape) :=
  [⟨"width", .float, none⟩, ⟨"label", .str, some (.str "plain")⟩]

/-- Its zero is a tuple, since its first alternative has none. -/
def crate : Shape :=
  .union [.uuid, .tuple [.choice "Side" ["left", "right"], .record "Box" box]]

theorem conforming_crate : crate.Conforming := by
  have hbox : Conforming (.record "Box" box) := by
    refine .of_record ⟨by decide, by simp [box, accepts]⟩ fun m hm name declared hp => ?_
    rcases List.mem_pair.1 hm with rfl | rfl <;> cases hp
  intro name declared hp
  cases hp with
  | union hs hp =>
    rcases List.mem_pair.1 hs with rfl | rfl
    · cases hp
    · cases hp with
      | tuple hs hp =>
        rcases List.mem_pair.1 hs with rfl | rfl
        · cases hp
        · exact hbox name declared hp

/-- Crates have a zero, and instants have none. -/
def depot : Declaration :=
  ⟨"Depot", [.of "crate" 3 crate none, .of "since" 5 .instant none], [], []⟩

theorem zero_legal_depot : crate.Conforming ∧
    crate.accepts (Field.of "crate" 3 crate none).default = true ∧
    depot.build = .error (.missingDefault "Depot" "since") := by
  have hcrate : crate.accepts (Field.of "crate" 3 crate none).default = true :=
    (zero_legal conforming_crate).1 _ rfl
  have hinstant : Conforming .instant := by
    intro name declared hp
    cases hp
  have hchecks : depot.Checks (Field.of "since" 5 .instant none) := by
    refine ⟨[.of "crate" 3 crate none], [], rfl, ?_, by decide, by decide⟩
    rfl
  refine ⟨conforming_crate, hcrate, ?_⟩
  exact (((zero_legal hinstant).2.2 "since" 5).1 depot hchecks).resolve_left Bool.false_ne_true

end Declaration
end ObjectSpace
