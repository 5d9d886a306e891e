import Mathlib.Data.List.Forall2
import ObjectSpace.Proofs.Shape.Induction
import ObjectSpace.Proofs.Value.Within
import ObjectSpace.Shape.Accepts

/-!
# Canonical values of a shape

A canonical value has its shape throughout: its sets and maps are strictly increasing, each of its
records has exactly the declared members, and a value of a union is canonical under one of the
alternatives. A shape is proper if the members of each record in it have names of their own and
canonical defaults.
-/

namespace ObjectSpace
namespace Shape

inductive Canonical : Shape → Value → Prop
  | int (n : Int64) : Canonical int (.int n)
  | float {x : Binary64} : x.isFinite = true → Canonical float (.float x)
  | bool (b : Bool) : Canonical bool (.bool b)
  | str (s : String) : Canonical str (.str s)
  | bytes (b : ByteArray) : Canonical bytes (.bytes b)
  | instant (t : Instant) : Canonical instant (.instant t)
  | uuid (u : Uuid) : Canonical uuid (.uuid u)
  | null (inner : Shape) : Canonical (optional inner) .null
  | optional {inner : Shape} {v : Value} : Canonical inner v → Canonical (optional inner) v
  | union {s : Shape} {alternatives : List Shape} {v : Value} :
      s ∈ alternatives → Canonical s v → Canonical (union alternatives) v
  | list {element : Shape} {items : List Value} :
      (∀ v ∈ items, Canonical element v) → Canonical (list element) (.list items)
  | set {element : Shape} {items : List Value} : Ordered.Increasing Value.compare items →
      (∀ v ∈ items, Canonical element v) → Canonical (set element) (.set items)
  | map {key value : Shape} {entries : List (Value × Value)} : Entries.Increasing entries →
      (∀ e ∈ entries, Canonical key e.1) → (∀ e ∈ entries, Canonical value e.2) →
      Canonical (map key value) (.map entries)
  | tuple {elements : List Shape} {items : List Value} : elements.length = items.length →
      (∀ p ∈ elements.zip items, Canonical p.1 p.2) → Canonical (tuple elements) (.tuple items)
  | record {name : String} {declared : List (Member Shape)} {members : List (String × Value)} :
      Entries.Increasing members → (members.map Prod.fst).Perm (declared.map Member.name) →
      (∀ d ∈ declared, ∀ v, Entries.lookup d.name members = some v → Canonical d.shape v) →
      Canonical (record name declared) (.record members)
  | reference (id : Identity) : Canonical (reference id.classId) (.ref id)
  | choice {name : String} {variants : List String} {s : String} :
      s ∈ variants → Canonical (choice name variants) (.str s)
  | any {v : Value} : v.isPlain = true → v.IsOrdered → Canonical any v

/-- `Part t s` says that `t` is `s` or stands somewhere inside it. -/
inductive Part (t : Shape) : Shape → Prop
  | self : Part t t
  | optional {inner : Shape} : Part t inner → Part t (optional inner)
  | union {s : Shape} {alternatives : List Shape} :
      s ∈ alternatives → Part t s → Part t (union alternatives)
  | list {element : Shape} : Part t element → Part t (list element)
  | set {element : Shape} : Part t element → Part t (set element)
  | key {key value : Shape} : Part t key → Part t (map key value)
  | value {key value : Shape} : Part t value → Part t (map key value)
  | tuple {s : Shape} {elements : List Shape} : s ∈ elements → Part t s → Part t (tuple elements)
  | member {name : String} {m : Member Shape} {members : List (Member Shape)} :
      m ∈ members → Part t m.shape → Part t (record name members)

/-- No union stands in the shape. -/
def UnionFree (s : Shape) : Prop := ∀ alternatives, ¬ Part (union alternatives) s

/-- The members of a record have different names, and their defaults are canonical. -/
structure ProperMembers (declared : List (Member Shape)) : Prop where
  nodup : (declared.map Member.name).Nodup
  default : ∀ d ∈ declared, ∀ v, d.default = some v → Canonical d.shape v

def Proper (s : Shape) : Prop :=
  ∀ name declared, Part (record name declared) s → ProperMembers declared

namespace Proper

theorem optional {inner : Shape} (h : Proper (.optional inner)) : Proper inner :=
  fun name declared hp => h name declared (.optional hp)

theorem union {alternatives : List Shape} (h : Proper (.union alternatives)) {s : Shape}
    (hs : s ∈ alternatives) : Proper s :=
  fun name declared hp => h name declared (.union hs hp)

theorem list {element : Shape} (h : Proper (.list element)) : Proper element :=
  fun name declared hp => h name declared (.list hp)

theorem set {element : Shape} (h : Proper (.set element)) : Proper element :=
  fun name declared hp => h name declared (.set hp)

theorem key {key value : Shape} (h : Proper (.map key value)) : Proper key :=
  fun name declared hp => h name declared (.key hp)

theorem value {key value : Shape} (h : Proper (.map key value)) : Proper value :=
  fun name declared hp => h name declared (.value hp)

theorem tuple {elements : List Shape} (h : Proper (.tuple elements)) {s : Shape}
    (hs : s ∈ elements) : Proper s :=
  fun name declared hp => h name declared (.tuple hs hp)

theorem members {name : String} {declared : List (Member Shape)}
    (h : Proper (.record name declared)) : ProperMembers declared := h name declared .self

theorem member {name : String} {declared : List (Member Shape)}
    (h : Proper (.record name declared)) {d : Member Shape} (hd : d ∈ declared) : Proper d.shape :=
  fun name declared hp => h name declared (.member hd hp)

/-! A shape is proper if its parts are. -/

theorem of_int : Proper .int := fun _ _ hp => nomatch hp

theorem of_float : Proper .float := fun _ _ hp => nomatch hp

theorem of_str : Proper .str := fun _ _ hp => nomatch hp

theorem of_any : Proper .any := fun _ _ hp => nomatch hp

theorem of_union {alternatives : List Shape} (h : ∀ s ∈ alternatives, Proper s) :
    Proper (.union alternatives) := by
  intro name declared hp
  cases hp with
  | union hs hp => exact h _ hs name declared hp

theorem of_list {element : Shape} (h : Proper element) : Proper (.list element) := by
  intro name declared hp
  cases hp with
  | list hp => exact h name declared hp

theorem of_set {element : Shape} (h : Proper element) : Proper (.set element) := by
  intro name declared hp
  cases hp with
  | set hp => exact h name declared hp

theorem of_map {key value : Shape} (hk : Proper key) (hv : Proper value) :
    Proper (.map key value) := by
  intro name declared hp
  cases hp with
  | key hp => exact hk name declared hp
  | value hp => exact hv name declared hp

theorem of_tuple {elements : List Shape} (h : ∀ s ∈ elements, Proper s) :
    Proper (.tuple elements) := by
  intro name declared hp
  cases hp with
  | tuple hs hp => exact h _ hs name declared hp

theorem of_record {name : String} {members : List (Member Shape)} (hm : ProperMembers members)
    (h : ∀ m ∈ members, Proper m.shape) : Proper (.record name members) := by
  intro name declared hp
  cases hp with
  | self => exact hm
  | member hm hp => exact h _ hm name declared hp

end Proper

/-! ## Canonical values have the shape -/

theorem allPlain_iff {items : List Value} :
    Value.allPlain items = true ↔ ∀ v ∈ items, v.isPlain = true := by
  induction items with
  | nil => simp [Value.allPlain]
  | cons v vs ih => rw [Value.allPlain, Bool.and_eq_true, ih, List.forall_mem_cons]

theorem membersPlain_iff {members : List (String × Value)} :
    Value.membersPlain members = true ↔ ∀ m ∈ members, m.2.isPlain = true := by
  induction members with
  | nil => simp [Value.membersPlain]
  | cons m ms ih => rw [Value.membersPlain, Bool.and_eq_true, ih, List.forall_mem_cons]

theorem anyAccepts_iff {alternatives : List Shape} {v : Value} :
    anyAccepts alternatives v = true ↔ ∃ s ∈ alternatives, accepts s v = true := by
  induction alternatives with
  | nil => simp [anyAccepts]
  | cons s ss ih => simp [anyAccepts, ih]

theorem eachAccepts_iff {elements : List Shape} {items : List Value} :
    eachAccepts elements items = true ↔ elements.length = items.length ∧
      ∀ p ∈ elements.zip items, accepts p.1 p.2 = true := by
  induction elements generalizing items with
  | nil => cases items <;> simp [eachAccepts]
  | cons s ss ih =>
    cases items with
    | nil => simp [eachAccepts]
    | cons v vs =>
      rw [eachAccepts, Bool.and_eq_true, ih, List.zip_cons_cons, List.forall_mem_cons,
        List.length_cons, List.length_cons, Nat.succ_inj]
      exact and_left_comm

/-- A member that is there has its shape, and one that is not there is not required. -/
theorem membersAccept_iff {declared : List (Member Shape)} {members : List (String × Value)} :
    membersAccept declared members = true ↔
      ∀ d ∈ declared, match Entries.lookup d.name members with
        | some v => accepts d.shape v = true
        | none => d.isRequired = false := by
  induction declared with
  | nil => simp [membersAccept]
  | cons d ds ih =>
    obtain ⟨name, s, default⟩ := d
    rw [membersAccept, Bool.and_eq_true, ih, List.forall_mem_cons]
    cases Entries.lookup name members <;> simp

theorem undeclared?_eq_none {α : Type u} {declared : List (Member Shape)}
    {members : List (String × α)} :
    undeclared? declared members = none ↔ ∀ m ∈ members, m.1 ∈ declared.map Member.name := by
  simp [undeclared?, List.find?_eq_none]

theorem undeclared?_of_perm {α : Type u} {declared : List (Member Shape)}
    {members : List (String × α)}
    (h : (members.map Prod.fst).Perm (declared.map Member.name)) :
    undeclared? declared members = none :=
  undeclared?_eq_none.2 fun _ hm => h.mem_iff.1 (List.mem_map_of_mem hm)

/-- The value of a declared member in a record that has exactly the declared members. -/
theorem exists_lookup_of_perm {declared : List (Member Shape)} {members : List (String × Value)}
    (ho : Entries.Increasing members)
    (h : (members.map Prod.fst).Perm (declared.map Member.name)) {d : Member Shape}
    (hd : d ∈ declared) : ∃ v, Entries.lookup d.name members = some v := by
  have hname : d.name ∈ members.map Prod.fst := h.mem_iff.2 (List.mem_map_of_mem hd)
  obtain ⟨⟨name, v⟩, hm, rfl⟩ := List.mem_map.1 hname
  exact ⟨v, Entries.lookup_of_mem (Entries.nodup_keys_of_increasing ho) hm⟩

/-- The declared member that a member of such a record is a value of. -/
theorem exists_declared_of_mem {declared : List (Member Shape)} {members : List (String × Value)}
    (ho : Entries.Increasing members)
    (h : (members.map Prod.fst).Perm (declared.map Member.name)) {m : String × Value}
    (hm : m ∈ members) :
    ∃ d ∈ declared, d.name = m.1 ∧ Entries.lookup d.name members = some m.2 := by
  have hname : m.1 ∈ declared.map Member.name := h.mem_iff.1 (List.mem_map_of_mem hm)
  obtain ⟨d, hd, hdm⟩ := List.mem_map.1 hname
  refine ⟨d, hd, hdm, hdm ▸ ?_⟩
  exact Entries.lookup_of_mem (Entries.nodup_keys_of_increasing ho) hm

/-- The element that an item of a tuple is a value of. -/
theorem exists_mem_zip {elements : List Shape} {items : List Value}
    (hl : elements.length = items.length) {v : Value} (hv : v ∈ items) :
    ∃ s, (s, v) ∈ elements.zip items := by
  obtain ⟨i, hi, rfl⟩ := List.mem_iff_getElem.1 hv
  have hz : i < (elements.zip items).length := by rw [List.length_zip]; omega
  have hmem := List.getElem_mem hz
  rw [List.getElem_zip] at hmem
  exact ⟨_, hmem⟩

theorem Canonical.accepts {s : Shape} {v : Value} (h : Canonical s v) : s.accepts v = true := by
  induction h with
  | int | bool | str | bytes | instant | uuid | null => rfl
  | float hx => exact hx
  | optional _ ih => rw [Shape.accepts, ih, Bool.or_true]
  | union hs _ ih => exact anyAccepts_iff.2 ⟨_, hs, ih⟩
  | list _ ih => exact List.all_eq_true.2 ih
  | set _ _ ih => exact List.all_eq_true.2 ih
  | map _ _ _ ihk ihv =>
    apply List.all_eq_true.2
    intro e he
    exact Bool.and_eq_true_iff.2 ⟨ihk e he, ihv e he⟩
  | tuple hl _ ih => exact eachAccepts_iff.2 ⟨hl, ih⟩
  | record ho hn _ ih =>
    rw [Shape.accepts, undeclared?_of_perm hn, Option.isNone_none, Bool.true_and]
    apply membersAccept_iff.2
    intro d hd
    obtain ⟨v, hv⟩ := exists_lookup_of_perm ho hn hd
    rw [hv]
    exact ih d hd v hv
  | reference => exact beq_self_eq_true _
  | choice hs => exact List.contains_iff_mem.2 hs
  | any hv _ => exact hv

theorem Canonical.isOrdered {s : Shape} {v : Value} (h : Canonical s v) : v.IsOrdered := by
  induction h with
  | int | float | bool | str | bytes | instant | uuid | null | reference | choice =>
    intro x hx
    cases hx
    trivial
  | optional _ ih => exact ih
  | union _ _ ih => exact ih
  | list _ ih => exact Value.isOrdered_list ih
  | set ho _ ih => exact Value.isOrdered_set ho ih
  | map ho _ _ ihk ihv => exact Value.isOrdered_map ho ihk ihv
  | tuple hl _ ih =>
    apply Value.isOrdered_tuple
    intro v hv
    obtain ⟨s, hz⟩ := exists_mem_zip hl hv
    exact ih _ hz
  | record ho hn _ ih =>
    apply Value.isOrdered_record ho
    intro m hm
    obtain ⟨d, hd, _, hlookup⟩ := exists_declared_of_mem ho hn hm
    exact ih d hd m.2 hlookup
  | any _ ho => exact ho

/-! ## Members that are left out -/

theorem anyNullable_iff {alternatives : List Shape} :
    anyNullable alternatives = true ↔ ∃ s ∈ alternatives, isNullable s = true := by
  induction alternatives with
  | nil => simp [anyNullable]
  | cons s ss ih => simp [anyNullable, ih]

theorem isOrdered_null : Value.null.IsOrdered := by
  intro x hx
  cases hx
  trivial

theorem canonical_null {s : Shape} (h : s.isNullable = true) : Canonical s .null := by
  induction s with
  | optional inner => exact .null inner
  | any => exact .any rfl isOrdered_null
  | union alternatives ih =>
    obtain ⟨s, hs, hn⟩ := anyNullable_iff.1 h
    exact .union hs (ih s hs hn)
  | _ => cases h

/-- What stands in for a member that is left out is its default, or null where null is allowed. -/
theorem ifAbsent?_cases {d : Member Shape} {v : Value} (h : d.ifAbsent? = some v) :
    d.default = some v ∨ d.shape.isNullable = true ∧ v = .null := by
  unfold Member.ifAbsent? at h
  split at h
  case h_1 w hw =>
    cases h
    exact .inl hw
  case h_2 =>
    split at h
    case isTrue hn =>
      cases h
      exact .inr ⟨hn, rfl⟩
    case isFalse => cases h

theorem ProperMembers.ifAbsent {declared : List (Member Shape)} (h : ProperMembers declared)
    {d : Member Shape} (hd : d ∈ declared) {v : Value} (hv : d.ifAbsent? = some v) :
    Canonical d.shape v := by
  rcases ifAbsent?_cases hv with hdefault | ⟨hn, rfl⟩
  · exact h.default d hd v hdefault
  · exact canonical_null hn

end Shape
end ObjectSpace
