import ObjectSpace.Proofs.Codec.Reading
import ObjectSpace.Proofs.Value.Induction

/-!
# What is written

The values that a shape writes and their documents, by what the parts are written as. Only null is
written as null, so that an optional value is told from its absence.
-/

namespace ObjectSpace
namespace Shape

open Success

/-! ## Scalars and optional values -/

theorem writeFloat_eq_ok {path : String} {x : Binary64} {j : Json} :
    writeFloat path x = .ok j ↔ x.isFinite = true ∧ j = .float x := by
  unfold writeFloat
  by_cases hx : x.isFinite = true
  · simp [hx, eq_comm]
  · simp [hx]

theorem writeReference_eq_ok {classId path : String} {id : Identity} {j : Json} :
    writeReference classId path id = .ok j ↔
      id.classId = classId ∧ id.validate = .ok () ∧ j = id.json := by
  constructor
  · intro h
    obtain ⟨_, hclass, h⟩ := bind_eq_ok.1 h
    obtain ⟨_, hwrite, h⟩ := bind_eq_ok.1 h
    cases h
    exact ⟨checkClass_eq_ok.1 (mapError_eq_ok.1 hclass),
      writable_eq_ok.1 (mapError_eq_ok.1 hwrite), rfl⟩
  · rintro ⟨hclass, hwrite, rfl⟩
    refine bind_eq_ok.2 ⟨(), mapError_eq_ok.2 (checkClass_eq_ok.2 hclass), ?_⟩
    exact bind_eq_ok.2 ⟨(), mapError_eq_ok.2 (writable_eq_ok.2 hwrite), rfl⟩

theorem exists_of_write_float {path : String} {v : Value} {j : Json}
    (h : write path float v = .ok j) :
    ∃ x, v = .float x ∧ x.isFinite = true ∧ j = .float x := by
  cases v with
  | float x => exact ⟨x, rfl, writeFloat_eq_ok.1 h⟩
  | _ => cases h

theorem exists_of_write_choice {path name : String} {variants : List String} {v : Value}
    {j : Json} (h : write path (choice name variants) v = .ok j) :
    ∃ text ∈ variants, v = .str text ∧ j = .str text := by
  cases v with
  | str text =>
    rw [write] at h
    split at h
    case isTrue hmem =>
      cases h
      exact ⟨text, List.contains_iff_mem.1 hmem, rfl, rfl⟩
    case isFalse => cases h
  | _ => cases h

theorem exists_of_write_reference {path classId : String} {v : Value} {j : Json}
    (h : write path (reference classId) v = .ok j) :
    ∃ id, v = .ref id ∧ id.classId = classId ∧ id.validate = .ok () ∧ j = id.json := by
  cases v with
  | ref id => exact ⟨id, rfl, writeReference_eq_ok.1 h⟩
  | _ => cases h

/-- An optional value that is there is written as itself. -/
theorem write_optional {path : String} {inner : Shape} {v : Value} (hv : v ≠ .null) :
    write path (optional inner) v = write path inner v := by
  cases v with
  | null => exact absurd rfl hv
  | _ => rfl

/-! ## Unions -/

/-- A union writes what one of its alternatives writes, and only what reads back as the same. -/
theorem exists_of_writeFirst {path : String} {all ss : List Shape} {v : Value} {j : Json}
    (h : writeFirst path all ss v = .ok (some j)) :
    (∃ s ∈ ss, write path s v = .ok j) ∧
      ∃ v', readFirst path all j = .ok v' ∧ v'.same v = true := by
  induction ss with
  | nil => cases h
  | cons s ss ih =>
    have hskip : writeFirst path all ss v = .ok (some j) →
        (∃ t ∈ s :: ss, write path t v = .ok j) ∧
          ∃ v', readFirst path all j = .ok v' ∧ v'.same v = true := by
      intro h
      obtain ⟨⟨t, ht, hw⟩, hr⟩ := ih h
      exact ⟨⟨t, List.mem_cons_of_mem _ ht, hw⟩, hr⟩
    unfold writeFirst at h
    split at h
    case isTrue =>
      obtain ⟨j', hj, h⟩ := bind_eq_ok.1 h
      split at h
      case h_1 v' hv =>
        split at h
        case isTrue hsame =>
          cases h
          exact ⟨⟨s, List.mem_cons_self, hj⟩, v', hv, hsame⟩
        case isFalse => exact hskip h
      case h_2 => exact hskip h
    case isFalse => exact hskip h

theorem exists_of_write_union {path : String} {alternatives : List Shape} {v : Value} {j : Json}
    (h : write path (union alternatives) v = .ok j) :
    (∃ s ∈ alternatives, write path s v = .ok j) ∧
      ∃ v', read path (union alternatives) j = .ok v' ∧ v'.same v = true := by
  unfold write at h
  split at h
  · obtain ⟨found, hfound, h⟩ := bind_eq_ok.1 h
    cases found with
    | none => cases h
    | some j' =>
      cases h
      obtain ⟨hw, v', hr, hsame⟩ := exists_of_writeFirst hfound
      exact ⟨hw, v', mapError_eq_ok.2 hr, hsame⟩
  · cases h

/-! ## Collections -/

theorem exists_of_write_list {path : String} {element : Shape} {v : Value} {j : Json}
    (h : write path (list element) v = .ok j) :
    ∃ items js, v = .list items ∧ j = .arr js ∧
      List.Forall₂ (Somewhere write element) items js := by
  cases v with
  | list items =>
    obtain ⟨js, hjs, rfl⟩ := map_eq_ok.1 h
    exact ⟨items, js, rfl, rfl, (forall₂_of_eachAt hjs).imp fun _ _ ⟨_, hj⟩ => ⟨_, hj⟩⟩
  | _ => cases h

theorem exists_of_write_set {path : String} {element : Shape} {v : Value} {j : Json}
    (h : write path (set element) v = .ok j) :
    ∃ items js, v = .set items ∧ j = .arr js ∧
      List.Forall₂ (Somewhere write element) (Value.canonicalItems items) js := by
  cases v with
  | set items =>
    obtain ⟨js, hjs, rfl⟩ := map_eq_ok.1 h
    exact ⟨items, js, rfl, rfl, (forall₂_of_eachAt hjs).imp fun _ _ ⟨_, hj⟩ => ⟨_, hj⟩⟩
  | _ => cases h

theorem exists_of_write_tuple {path : String} {elements : List Shape} {v : Value} {j : Json}
    (h : write path (tuple elements) v = .ok j) :
    ∃ items js, v = .tuple items ∧ j = .arr js ∧ Each (Somewhere write) elements items js := by
  cases v with
  | tuple items =>
    rw [write] at h
    split at h
    case isTrue hl =>
      obtain ⟨js, hjs, rfl⟩ := map_eq_ok.1 h
      exact ⟨items, js, rfl, rfl, each_of_writeEach hl hjs⟩
    case isFalse => cases h
  | _ => cases h

/-! ## Maps -/

/-- What is written for an entry of a map in an object, and in an array of pairs. -/
def MemberWritten (R : Shape → Value → Json → Prop) (key value : Shape) (e : Value × Value)
    (m : String × Json) : Prop := R key e.1 (.str m.1) ∧ R value e.2 m.2

def PairWritten (R : Shape → Value → Json → Prop) (key value : Shape) (e : Value × Value)
    (j : Json) : Prop := ∃ k v, j = .arr [k, v] ∧ R key e.1 k ∧ R value e.2 v

theorem keyText_eq_ok {path text : String} {key : Shape} {k : Value} {j : Json} :
    keyText path key k j = .ok text ↔ j = .str text := by
  cases j <;> simp [keyText]

theorem exists_of_write_map {path : String} {key value : Shape} {v : Value} {j : Json}
    (h : write path (map key value) v = .ok j) :
    ∃ entries, v = .map entries ∧
      ((∃ members, j = .object members ∧ key.isTextual = true ∧
          List.Forall₂ (MemberWritten (Somewhere write) key value) entries members) ∨
        ∃ pairs, j = .arr pairs ∧ key.isTextual = false ∧
          List.Forall₂ (PairWritten (Somewhere write) key value) entries pairs) := by
  cases v with
  | map entries =>
    refine ⟨entries, rfl, ?_⟩
    unfold write at h
    dsimp only at h
    split at h
    case isTrue ht =>
      obtain ⟨members, hms, h⟩ := bind_eq_ok.1 h
      cases h
      refine .inl ⟨members, rfl, ht, (mapM_eq_ok.1 hms).imp fun e m hem => ?_⟩
      obtain ⟨htext, hvalue⟩ := pair_eq_ok.1 hem
      obtain ⟨k, hk, htext⟩ := bind_eq_ok.1 htext
      rw [keyText_eq_ok.1 htext] at hk
      exact ⟨⟨_, hk⟩, ⟨_, hvalue⟩⟩
    case isFalse ht =>
      obtain ⟨pairs, hps, h⟩ := bind_eq_ok.1 h
      cases h
      refine .inr ⟨pairs, rfl, Bool.eq_false_iff.2 ht,
        (forall₂_of_eachAt hps).imp fun e pair he => ?_⟩
      obtain ⟨i, he⟩ := he
      obtain ⟨k, hk, he⟩ := bind_eq_ok.1 he
      obtain ⟨v, hv, he⟩ := bind_eq_ok.1 he
      cases he
      exact ⟨k, v, rfl, ⟨_, hk⟩, ⟨_, hv⟩⟩
  | _ => cases h

/-- However the document of a map is laid out, the key and the value of each entry are written. -/
theorem exists_of_write_entry {path : String} {key value : Shape} {entries : List (Value × Value)}
    {j : Json} (h : write path (map key value) (.map entries) = .ok j) {e : Value × Value}
    (he : e ∈ entries) :
    (∃ k, Somewhere write key e.1 k) ∧ ∃ w, Somewhere write value e.2 w := by
  obtain ⟨_, ⟨⟩, ⟨_, _, _, hms⟩ | ⟨_, _, _, hps⟩⟩ := exists_of_write_map h
  · obtain ⟨m, _, hk, hw⟩ := exists_of_mem_left hms he
    exact ⟨⟨_, hk⟩, ⟨_, hw⟩⟩
  · obtain ⟨_, _, k, w, _, hk, hw⟩ := exists_of_mem_left hps he
    exact ⟨⟨k, hk⟩, ⟨w, hw⟩⟩

/-! ## Records -/

/-- The documents of the declared members that are there; the others are not required. -/
inductive MembersWritten (R : Shape → Value → Json → Prop) (members : List (String × Value)) :
    List (Member Shape) → List (String × Json) → Prop
  | nil : MembersWritten R members [] []
  | there {d : Member Shape} {ds : List (Member Shape)} {es : List (String × Json)} {v : Value}
      {j : Json} : Entries.lookup d.name members = some v → R d.shape v j →
      MembersWritten R members ds es → MembersWritten R members (d :: ds) ((d.name, j) :: es)
  | absent {d : Member Shape} {ds : List (Member Shape)} {es : List (String × Json)} {v : Value} :
      Entries.lookup d.name members = none → d.ifAbsent? = some v →
      MembersWritten R members ds es → MembersWritten R members (d :: ds) es

/-- What is written for a declared member that is there. -/
def FieldWritten (R : Shape → Value → Json → Prop) (members : List (String × Value))
    (d : Member Shape) (e : String × Json) : Prop :=
  e.1 = d.name ∧ ∃ v, Entries.lookup d.name members = some v ∧ R d.shape v e.2

namespace MembersWritten

variable {R S : Shape → Value → Json → Prop} {members : List (String × Value)}
  {ds : List (Member Shape)} {es : List (String × Json)}

theorem imp (h : MembersWritten R members ds es)
    (hi : ∀ d ∈ ds, ∀ v j, R d.shape v j → S d.shape v j) : MembersWritten S members ds es := by
  induction h with
  | nil => exact .nil
  | there hv hj _ ih =>
    obtain ⟨hd, hds⟩ := List.forall_mem_cons.1 hi
    exact .there hv (hd _ _ hj) (ih hds)
  | absent hv hd _ ih => exact .absent hv hd (ih (List.forall_mem_cons.1 hi).2)

theorem exists_of_mem (h : MembersWritten R members ds es) {e : String × Json} (he : e ∈ es) :
    ∃ d ∈ ds, FieldWritten R members d e := by
  induction h with
  | nil => cases he
  | @there d ds es v j hv hj _ ih =>
    rcases List.mem_cons.1 he with rfl | he
    · exact ⟨d, List.mem_cons_self, rfl, v, hv, hj⟩
    · exact (ih he).imp fun _ => And.imp_left (List.mem_cons_of_mem d)
  | @absent d ds es v _ _ _ ih => exact (ih he).imp fun _ => And.imp_left (List.mem_cons_of_mem d)

theorem exists_of_lookup (h : MembersWritten R members ds es) {d : Member Shape} (hd : d ∈ ds)
    {v : Value} (hv : Entries.lookup d.name members = some v) : ∃ j, R d.shape v j := by
  induction h with
  | nil => cases hd
  | @there d' ds es w j hw hj _ ih =>
    rcases List.mem_cons.1 hd with rfl | hd
    · rw [hv] at hw
      cases hw
      exact ⟨j, hj⟩
    · exact ih hd
  | @absent d' ds es w hw _ _ ih =>
    rcases List.mem_cons.1 hd with rfl | hd
    · rw [hv] at hw
      cases hw
    · exact ih hd

theorem exists_ifAbsent (h : MembersWritten R members ds es) {d : Member Shape} (hd : d ∈ ds)
    (hl : Entries.lookup d.name members = none) : ∃ v, d.ifAbsent? = some v := by
  induction h with
  | nil => cases hd
  | there hv _ _ ih =>
    rcases List.mem_cons.1 hd with rfl | hd
    · rw [hl] at hv
      cases hv
    · exact ih hd
  | absent _ habsent _ ih =>
    rcases List.mem_cons.1 hd with rfl | hd
    · exact ⟨_, habsent⟩
    · exact ih hd

/-- Where every member is there, there is a document for each declared one. -/
theorem forall₂ (h : MembersWritten R members ds es)
    (hall : ∀ d ∈ ds, ∃ v, Entries.lookup d.name members = some v) :
    List.Forall₂ (FieldWritten R members) ds es := by
  induction h with
  | nil => exact .nil
  | there hv hj _ ih => exact .cons ⟨rfl, _, hv, hj⟩ (ih (List.forall_mem_cons.1 hall).2)
  | absent hv _ _ _ =>
    obtain ⟨w, hw⟩ := (List.forall_mem_cons.1 hall).1
    rw [hv] at hw
    cases hw

end MembersWritten

theorem membersWritten_of_writeMembers {path : String} {ds : List (Member Shape)}
    {members : List (String × Value)} {es : List (String × Json)}
    (h : writeMembers path ds members = .ok es) :
    MembersWritten (Somewhere write) members ds es := by
  induction ds generalizing es with
  | nil =>
    cases h
    exact .nil
  | cons d ds ih =>
    obtain ⟨name, s, default⟩ := d
    rw [writeMembers] at h
    cases hl : Entries.lookup name members with
    | some v =>
      rw [hl] at h
      obtain ⟨j, hj, h⟩ := bind_eq_ok.1 h
      obtain ⟨es', hes, h⟩ := bind_eq_ok.1 h
      cases h
      exact .there hl ⟨_, hj⟩ (ih hes)
    | none =>
      rw [hl] at h
      obtain ⟨v, hv, h⟩ := bind_eq_ok.1 h
      exact .absent hl (absent_eq_ok.1 (mapError_eq_ok.1 hv)) (ih h)

theorem exists_of_write_record {path name : String} {declared : List (Member Shape)} {v : Value}
    {j : Json} (h : write path (record name declared) v = .ok j) :
    ∃ members es, v = .record members ∧ j = .object es ∧
      undeclared? declared members = none ∧
      MembersWritten (Somewhere write) members declared es := by
  cases v with
  | record members =>
    rw [write] at h
    split at h
    · cases h
    case h_2 hnames =>
      obtain ⟨es, hes, rfl⟩ := map_eq_ok.1 h
      exact ⟨members, es, rfl, rfl, hnames, membersWritten_of_writeMembers hes⟩
  | _ => cases h

/-! ## Untyped data -/

/-- What is written for a member of an untyped record, and for an entry of an untyped map. -/
def PlainMember (R : Shape → Value → Json → Prop) (m : String × Value) (e : String × Json) : Prop :=
  e.1 = m.1 ∧ R any m.2 e.2

def PlainEntry (R : Shape → Value → Json → Prop) (e : Value × Value) (m : String × Json) : Prop :=
  e.1 = .str m.1 ∧ R any e.2 m.2

theorem forall₂_of_plainArray {path : String} {i : Nat} {vs : List Value} {js : List Json}
    (h : plainArray path i vs = .ok js) : List.Forall₂ (Somewhere write any) vs js := by
  induction vs generalizing i js with
  | nil =>
    cases h
    exact .nil
  | cons v vs ih =>
    obtain ⟨j, hj, h⟩ := bind_eq_ok.1 h
    obtain ⟨js', hjs, h⟩ := bind_eq_ok.1 h
    cases h
    exact .cons ⟨_, hj⟩ (ih hjs)

theorem forall₂_of_plainObject {path : String} {ms : List (String × Value)}
    {es : List (String × Json)} (h : plainObject path ms = .ok es) :
    List.Forall₂ (PlainMember (Somewhere write)) ms es := by
  induction ms generalizing es with
  | nil =>
    cases h
    exact .nil
  | cons m ms ih =>
    obtain ⟨name, v⟩ := m
    obtain ⟨j, hj, h⟩ := bind_eq_ok.1 h
    obtain ⟨es', hes, h⟩ := bind_eq_ok.1 h
    cases h
    exact .cons ⟨rfl, _, hj⟩ (ih hes)

theorem forall₂_of_plainEntries {path : String} {es : List (Value × Value)}
    {ms : List (String × Json)} (h : plainEntries path es = .ok ms) :
    List.Forall₂ (PlainEntry (Somewhere write)) es ms := by
  induction es generalizing ms with
  | nil =>
    cases h
    exact .nil
  | cons e es ih =>
    obtain ⟨k, v⟩ := e
    cases k with
    | str name =>
      obtain ⟨j, hj, h⟩ := bind_eq_ok.1 h
      obtain ⟨ms', hms, h⟩ := bind_eq_ok.1 h
      cases h
      exact .cons ⟨rfl, _, hj⟩ (ih hms)
    | _ => cases h

/-! ## Null -/

theorem eq_null_of_writePlain_null {path : String} {v : Value}
    (h : writePlain path v = .ok .null) : v = .null := by
  cases v with
  | null => rfl
  | bool | int | str | bytes | instant | uuid | ref => cases h
  | float x => cases (writeFloat_eq_ok.1 h).2
  | list | set | tuple | record | map =>
    obtain ⟨_, _, h⟩ := map_eq_ok.1 h
    cases h

theorem eq_null_of_write_null {s : Shape} {path : String} {v : Value}
    (h : write path s v = .ok .null) : v = .null := by
  induction s generalizing path with
  | any => exact eq_null_of_writePlain_null h
  | optional inner ih =>
    by_cases hv : v = .null
    · exact hv
    · exact ih (write_optional hv ▸ h)
  | union alternatives ih =>
    obtain ⟨⟨s, hs, hw⟩, _⟩ := exists_of_write_union h
    exact ih s hs hw
  | int | bool | str | bytes | instant | uuid => cases v <;> cases h
  | float => obtain ⟨_, _, _, h⟩ := exists_of_write_float h; cases h
  | choice => obtain ⟨_, _, _, h⟩ := exists_of_write_choice h; cases h
  | reference => obtain ⟨_, _, _, _, h⟩ := exists_of_write_reference h; cases h
  | list => obtain ⟨_, _, _, h, _⟩ := exists_of_write_list h; cases h
  | set => obtain ⟨_, _, _, h, _⟩ := exists_of_write_set h; cases h
  | tuple => obtain ⟨_, _, _, h, _⟩ := exists_of_write_tuple h; cases h
  | map => obtain ⟨_, _, ⟨_, h, _⟩ | ⟨_, h, _⟩⟩ := exists_of_write_map h <;> cases h
  | record => obtain ⟨_, _, _, h, _⟩ := exists_of_write_record h; cases h

end Shape
end ObjectSpace
