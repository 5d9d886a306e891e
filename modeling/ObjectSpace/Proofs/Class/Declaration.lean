import Mathlib.Data.List.Nodup
import ObjectSpace.Class.Basic

/-!
# Declarations without a fault

The checks of a declaration go through its members one after the other and stop at the first fault.
`Declaration.Sound` says what they are after, without an order: the members have names of their own,
the fields slots of their own and defaults of their shapes, the methods parameters that fit their
call shapes, and the accessors a field. A declaration has no fault exactly if it is sound.
-/

namespace ObjectSpace

/-- The keys are different from each other, and from those that were seen before. -/
def Fresh {α β : Type*} (key : α → β) (seen : List β) (as : List α) : Prop :=
  (as.map key).Nodup ∧ ∀ a ∈ as, key a ∉ seen

section

variable {α β : Type*} {key : α → β} {seen : List β} {a : α} {as : List α}

theorem fresh_nil : Fresh key seen [] := ⟨.nil, nofun⟩

/-- One more key is new, and the others are new even beside it. -/
theorem fresh_cons : Fresh key seen (a :: as) ↔ key a ∉ seen ∧ Fresh key (key a :: seen) as := by
  unfold Fresh
  rw [List.map_cons, List.nodup_cons, List.forall_mem_cons, List.mem_map]
  simp only [List.mem_cons, not_or]
  constructor
  · rintro ⟨⟨hself, hnodup⟩, hnew, hseen⟩
    exact ⟨hnew, hnodup, fun b hb => ⟨fun heq => hself ⟨b, hb, heq⟩, hseen b hb⟩⟩
  · rintro ⟨hnew, hnodup, hrest⟩
    exact ⟨⟨fun ⟨b, hb, heq⟩ => (hrest b hb).1 heq, hnodup⟩, hnew, fun b hb => (hrest b hb).2⟩

/-- Among members with different keys, the first with a key is the one with this key. -/
theorem find?_key_eq_some_iff [BEq β] [LawfulBEq β] (h : (as.map key).Nodup) {k : β} :
    as.find? (key · == k) = some a ↔ a ∈ as ∧ key a = k := by
  constructor
  · intro hfound
    have hkey := List.find?_some hfound
    exact ⟨List.mem_of_find?_eq_some hfound, eq_of_beq hkey⟩
  · rintro ⟨ha, rfl⟩
    cases hfound : as.find? (key · == key a) with
    | none => exact absurd (beq_self_eq_true (key a)) (List.find?_eq_none.1 hfound a ha)
    | some b =>
      have hkey := List.find?_some hfound
      rw [List.inj_on_of_nodup_map h (List.mem_of_find?_eq_some hfound) ha (eq_of_beq hkey)]

theorem nodup_append_map : (seen ++ as.map key).Nodup ↔ seen.Nodup ∧ Fresh key seen as := by
  unfold Fresh
  rw [List.nodup_append', List.disjoint_right]
  simp only [List.forall_mem_map]

end

/-! ## Methods -/

/-- How many parameters a method with this call shape declares. -/
def CallShape.Takes : CallShape → Nat → Prop
  | noArguments, n => n = 0
  | single, n | singleWithMeta, n => n = 1
  | variadic, _ => True

/-- The parameters fit the call shape, have names of their own, and defaults of their shapes. -/
structure Method.Sound (m : Method) : Prop where
  takes : m.shape.Takes m.params.length
  names : (m.params.map Member.name).Nodup
  defaults : ∀ p ∈ m.params, ∀ v, p.default = some v → p.shape.accepts v = true

theorem Param.defaultFits_iff {p : Param} :
    p.defaultFits = true ↔ ∀ v, p.default = some v → p.shape.accepts v = true := by
  unfold defaultFits
  cases p.default with
  | none => simp
  | some v => simp

theorem Param.fault?_eq_none_iff {seen : List String} {ps : List Param} :
    fault? seen ps = none ↔ Fresh Member.name seen ps ∧ ∀ p ∈ ps, p.defaultFits = true := by
  induction ps generalizing seen with
  | nil => simp [fault?, fresh_nil]
  | cons p ps ih =>
    rw [fresh_cons, List.forall_mem_cons, fault?]
    split
    case isTrue hname => simp [List.contains_iff_mem.1 hname]
    case isFalse hname =>
      rw [List.contains_iff_mem] at hname
      split
      case isTrue hfits => simp [ih, hname, hfits]
      case isFalse hfits => simp [hfits]

theorem Method.sound_iff {m : Method} : m.Sound ↔
    m.shape.Takes m.params.length ∧ Param.fault? [] m.params = none := by
  simp only [Param.fault?_eq_none_iff, Param.defaultFits_iff]
  constructor
  · intro h
    exact ⟨h.takes, ⟨h.names, fun _ _ => List.not_mem_nil⟩, h.defaults⟩
  · rintro ⟨htakes, ⟨hnames, _⟩, hdefaults⟩
    exact ⟨htakes, hnames, hdefaults⟩

theorem Method.fault?_eq_none_iff {m : Method} : m.fault? = none ↔ m.Sound := by
  rw [Method.sound_iff, fault?]
  cases m.shape with
  | noArguments =>
    unfold CallShape.Takes
    cases m.params with
    | nil => simp [Param.fault?]
    | cons p ps => simp
  | single | singleWithMeta =>
    dsimp only [CallShape.Takes]
    split
    case isTrue hone => simp [hone]
    case isFalse hmany => simp [hmany]
  | variadic => simp [CallShape.Takes]

/-! ## Members -/

namespace Declaration

def accessorNames (d : Declaration) : List String := d.accessors.map Accessor.name

/-- Nothing is wrong with the declaration. -/
structure Sound (d : Declaration) : Prop where
  names : (d.fieldNames ++ d.methodNames ++ d.accessorNames).Nodup
  indices : (d.fields.map Field.index).Nodup
  defaults : ∀ f ∈ d.fields, f.shape.accepts f.default = true
  methods : ∀ m ∈ d.methods, m.Sound
  accessors : ∀ a ∈ d.accessors, ∃ f ∈ d.fields, f.name = a.field

theorem fieldFault?_eq_none_iff {classId : String} {names : List String} {indices : List UInt32}
    {fields : List Field} :
    fieldFault? classId names indices fields = none ↔ Fresh Field.name names fields ∧
      Fresh Field.index indices fields ∧ ∀ f ∈ fields, f.shape.accepts f.default = true := by
  induction fields generalizing names indices with
  | nil => simp [fieldFault?, fresh_nil]
  | cons f fs ih =>
    rw [fresh_cons, fresh_cons, List.forall_mem_cons, fieldFault?]
    split
    case isTrue hname => simp [List.contains_iff_mem.1 hname]
    case isFalse hname =>
      rw [List.contains_iff_mem] at hname
      split
      case isTrue hindex => simp [List.contains_iff_mem.1 hindex]
      case isFalse hindex =>
        rw [List.contains_iff_mem] at hindex
        split
        case isTrue hdefault => simp [ih, hname, hindex, hdefault]
        case isFalse hdefault => split <;> simp [hdefault]

theorem methodFault?_eq_none_iff {classId : String} {names : List String}
    {methods : List Method} :
    methodFault? classId names methods = none ↔
      Fresh Method.name names methods ∧ ∀ m ∈ methods, m.Sound := by
  induction methods generalizing names with
  | nil => simp [methodFault?, fresh_nil]
  | cons m ms ih =>
    rw [fresh_cons, List.forall_mem_cons, methodFault?]
    split
    case isTrue hname => simp [List.contains_iff_mem.1 hname]
    case isFalse hname =>
      rw [List.contains_iff_mem] at hname
      cases hfault : m.fault? with
      | none => simp [ih, hname, Method.fault?_eq_none_iff.1 hfault]
      | some fault =>
        have hunsound : ¬ m.Sound := by
          rw [← Method.fault?_eq_none_iff, hfault]
          nofun
        simp [hunsound]

theorem accessorFault?_eq_none_iff {classId : String} {fields names : List String}
    {accessors : List Accessor} :
    accessorFault? classId fields names accessors = none ↔
      Fresh Accessor.name names accessors ∧ ∀ a ∈ accessors, a.field ∈ fields := by
  induction accessors generalizing names with
  | nil => simp [accessorFault?, fresh_nil]
  | cons a as ih =>
    rw [fresh_cons, List.forall_mem_cons, accessorFault?]
    split
    case isTrue hname => simp [List.contains_iff_mem.1 hname]
    case isFalse hname =>
      rw [List.contains_iff_mem] at hname
      split
      case isTrue hfield => simp [ih, hname, List.contains_iff_mem.1 hfield]
      case isFalse hfield =>
        rw [List.contains_iff_mem] at hfield
        simp [hfield]

/-- The three passes find no fault exactly if there is none. -/
theorem fault?_eq_none_iff {d : Declaration} : d.fault? = none ↔ d.Sound := by
  have hnames : (d.fieldNames ++ d.methodNames ++ d.accessorNames).Nodup ↔
      Fresh Field.name [] d.fields ∧ Fresh Method.name d.fieldNames d.methods ∧
        Fresh Accessor.name (d.methodNames ++ d.fieldNames) d.accessors := by
    have hseen : ∀ {as : List Accessor}, Fresh Accessor.name (d.fieldNames ++ d.methodNames) as ↔
        Fresh Accessor.name (d.methodNames ++ d.fieldNames) as := by
      intro as
      unfold Fresh
      simp only [List.mem_append, or_comm]
    rw [accessorNames, nodup_append_map, hseen, methodNames, nodup_append_map, and_assoc,
      fieldNames]
    refine and_congr_left fun _ => ?_
    exact ⟨fun h => ⟨h, nofun⟩, And.left⟩
  have hfields : ∀ a : Accessor, a.field ∈ d.fieldNames ↔ ∃ f ∈ d.fields, f.name = a.field :=
    fun a => List.mem_map
  unfold fault?
  simp only [Option.orElse_eq_orElse, Option.orElse_eq_or, Option.or_eq_none_iff]
  rw [fieldFault?_eq_none_iff, methodFault?_eq_none_iff, accessorFault?_eq_none_iff]
  simp only [hfields]
  constructor
  · rintro ⟨⟨hf, hi, hd⟩, ⟨hm, hs⟩, ha, hb⟩
    exact ⟨hnames.2 ⟨hf, hm, ha⟩, hi.1, hd, hs, hb⟩
  · intro h
    obtain ⟨hf, hm, ha⟩ := hnames.1 h.names
    exact ⟨⟨hf, ⟨h.indices, nofun⟩, h.defaults⟩, ⟨hm, h.methods⟩, ha, h.accessors⟩

/-- A class is built from a declaration as it stands. -/
theorem build_eq_ok {d : Declaration} {cls : Class} :
    d.build = .ok cls ↔ cls.declaration = d := by
  constructor
  · intro h
    unfold build at h
    split at h
    · cases h
      rfl
    · cases h
  · rintro rfl
    unfold build
    split
    · rfl
    case h_2 e he =>
      rw [cls.faultless] at he
      cases he

end Declaration

theorem Class.sound (c : Class) : c.declaration.Sound :=
  Declaration.fault?_eq_none_iff.1 c.faultless

end ObjectSpace
