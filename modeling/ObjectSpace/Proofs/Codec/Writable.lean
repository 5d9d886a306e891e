import ObjectSpace.Proofs.Codec.UnionWalk

/-!
# What can be written

A value that has the shape is written unless it holds a reference that is not valid or a value of a
union that its alternatives do not tell apart, and each of these is enough to keep the whole value
from being written.
-/

namespace ObjectSpace
namespace Shape

open Success

/-! ## What keeps a value from being written -/

/-- `At t x s v` says that `x` is found at `t` when the value `v` is taken apart by the shape `s`.
Unions are not looked into, since the value does not tell under which alternative it is written. -/
inductive At (t : Shape) (x : Value) : Shape → Value → Prop
  | here : At t x t x
  | optional {inner : Shape} {v : Value} : v ≠ .null → At t x inner v → At t x (optional inner) v
  | list {element : Shape} {items : List Value} {v : Value} : v ∈ items → At t x element v →
      At t x (list element) (.list items)
  | set {element : Shape} {items : List Value} {v : Value} : v ∈ Value.canonicalItems items →
      At t x element v → At t x (set element) (.set items)
  | tuple {elements : List Shape} {items : List Value} {p : Shape × Value} :
      p ∈ elements.zip items → At t x p.1 p.2 → At t x (tuple elements) (.tuple items)
  | key {key value : Shape} {entries : List (Value × Value)} {e : Value × Value} : e ∈ entries →
      At t x key e.1 → At t x (map key value) (.map entries)
  | value {key value : Shape} {entries : List (Value × Value)} {e : Value × Value} : e ∈ entries →
      At t x value e.2 → At t x (map key value) (.map entries)
  | member {name : String} {declared : List (Member Shape)} {members : List (String × Value)}
      {d : Member Shape} {v : Value} : d ∈ declared → Entries.lookup d.name members = some v →
      At t x d.shape v → At t x (record name declared) (.record members)

theorem At.part {t s : Shape} {x v : Value} (h : At t x s v) : Part t s := by
  induction h with
  | here => exact .self
  | optional _ _ ih => exact .optional ih
  | list _ _ ih => exact .list ih
  | set _ _ ih => exact .set ih
  | tuple hmem _ ih => exact .tuple (List.of_mem_zip hmem).1 ih
  | key _ _ ih => exact .key ih
  | value _ _ ih => exact .value ih
  | member hd _ _ ih => exact .member hd ih

theorem At.within {t s : Shape} {x v : Value} (h : At t x s v) : Value.Within x v := by
  induction h with
  | here => exact .self
  | optional _ _ ih => exact ih
  | list hmem _ ih => exact .list hmem ih
  | set hmem _ ih => exact .set (Ordered.mem_of_mem_distinct hmem) ih
  | tuple hmem _ ih => exact .tuple (List.of_mem_zip hmem).2 ih
  | key hmem _ ih => exact .key hmem ih
  | value hmem _ ih => exact .value hmem ih
  | member _ hl _ ih => exact .member (Entries.mem_of_lookup hl) ih

/-- Whatever document the alternative makes of the value, the whole union reads it as the value. -/
def ReadsBack (alternatives : List Shape) (a : Shape) (x : Value) : Prop :=
  ∀ j, Writes a x j → ∃ w, Reads (union alternatives) j w ∧ w.same x = true

mutual

/-- Nothing in the value refuses to be written: its references are valid, and its values of unions
are told apart. -/
inductive Unobstructed : Shape → Value → Prop
  | intro {s : Shape} {v : Value}
      (references : ∀ classId id, At (reference classId) (.ref id) s v → id.validate = .ok ())
      (unions : ∀ alternatives x, At (union alternatives) x s v → ToldApart alternatives x) :
      Unobstructed s v

/-- An alternative has the value, and the union takes what it writes for nothing else. Neither this
alternative nor one before it that has the value too finds something that refuses to be written. -/
inductive ToldApart : List Shape → Value → Prop
  | intro {alternatives earlier later : List Shape} {a : Shape} {x : Value}
      (split : alternatives = earlier ++ a :: later) (accepts : a.accepts x = true)
      (back : ReadsBack alternatives a x) (clear : Unobstructed a x)
      (passed : ∀ b ∈ earlier, b.accepts x = true → Unobstructed b x) :
      ToldApart alternatives x

end

theorem Unobstructed.references {s : Shape} {v : Value} (h : Unobstructed s v) {classId : String}
    {id : Identity} (hat : At (reference classId) (.ref id) s v) : id.validate = .ok () := by
  cases h with
  | intro references _ => exact references classId id hat

theorem Unobstructed.unions {s : Shape} {v : Value} (h : Unobstructed s v)
    {alternatives : List Shape} {x : Value} (hat : At (union alternatives) x s v) :
    ToldApart alternatives x := by
  cases h with
  | intro _ unions => exact unions alternatives x hat

/-- Without unions only references count. -/
theorem Unobstructed.of_unionFree {s : Shape} {v : Value} (hu : s.UnionFree)
    (hvalid : ∀ classId id, At (reference classId) (.ref id) s v → id.validate = .ok ()) :
    Unobstructed s v :=
  .intro hvalid fun alternatives _ hat => absurd hat.part (hu alternatives)

theorem Each.of_mem_zip {R : Shape → Value → Json → Prop} {ss : List Shape} {vs : List Value}
    {js : List Json} (h : Each R ss vs js) {p : Shape × Value} (hp : p ∈ ss.zip vs) :
    ∃ j, R p.1 p.2 j := by
  induction h with
  | nil => cases hp
  | cons hj _ ih =>
    rw [List.zip_cons_cons] at hp
    rcases List.mem_cons.1 hp with rfl | hp
    · exact ⟨_, hj⟩
    · exact ih hp

/-- What is found in a value that can be written can be written. -/
theorem Writable.part {t s : Shape} {x v : Value} (h : At t x s v) (hv : Writable s v) :
    Writable t x := by
  induction h with
  | here => exact hv
  | optional hnull _ ih =>
    obtain ⟨j, hj⟩ := hv
    exact ih ⟨j, fun q => (write_optional hnull).symm.trans (hj q)⟩
  | list hmem _ ih =>
    obtain ⟨j, hj⟩ := hv
    obtain ⟨_, js, ⟨⟩, rfl, hjs⟩ := exists_of_write_list (hj "")
    obtain ⟨j, _, hj⟩ := exists_of_mem_left hjs hmem
    exact ih ⟨j, writes_of_write hj⟩
  | set hmem _ ih =>
    obtain ⟨j, hj⟩ := hv
    obtain ⟨_, js, ⟨⟩, rfl, hjs⟩ := exists_of_write_set (hj "")
    obtain ⟨j, _, hj⟩ := exists_of_mem_left hjs hmem
    exact ih ⟨j, writes_of_write hj⟩
  | tuple hmem _ ih =>
    obtain ⟨j, hj⟩ := hv
    obtain ⟨_, js, ⟨⟩, rfl, hjs⟩ := exists_of_write_tuple (hj "")
    obtain ⟨j, hj⟩ := hjs.of_mem_zip hmem
    exact ih ⟨j, writes_of_write hj⟩
  | key hmem _ ih =>
    obtain ⟨j, hj⟩ := hv
    obtain ⟨⟨k, hk⟩, _⟩ := exists_of_write_entry (hj "") hmem
    exact ih ⟨k, writes_of_write hk⟩
  | value hmem _ ih =>
    obtain ⟨j, hj⟩ := hv
    obtain ⟨_, w, hw⟩ := exists_of_write_entry (hj "") hmem
    exact ih ⟨w, writes_of_write hw⟩
  | member hd hl _ ih =>
    obtain ⟨j, hj⟩ := hv
    obtain ⟨_, es, ⟨⟩, rfl, _, hes⟩ := exists_of_write_record (hj "")
    obtain ⟨j, hj⟩ := hes.exists_of_lookup hd hl
    exact ih ⟨j, writes_of_write hj⟩

theorem Part.sizeOf_le {t s : Shape} (h : Part t s) : sizeOf t ≤ sizeOf s := by
  induction h with
  | self => exact Nat.le_refl _
  | optional _ ih | list _ ih | set _ ih | key _ ih | value _ ih =>
    simp only [optional.sizeOf_spec, list.sizeOf_spec, set.sizeOf_spec, map.sizeOf_spec]
    omega
  | union hmem _ ih | tuple hmem _ ih =>
    have hmem := List.sizeOf_lt_of_mem hmem
    simp only [union.sizeOf_spec, tuple.sizeOf_spec]
    omega
  | @member _ m _ hmem _ ih =>
    have hmem := List.sizeOf_lt_of_mem hmem
    have hshape : sizeOf m.shape < sizeOf m := by
      cases m
      simp only [Member.mk.sizeOf_spec]
      omega
    simp only [record.sizeOf_spec]
    omega

theorem Writable.reference_valid {s : Shape} {v : Value} (h : Writable s v) {classId : String}
    {id : Identity} (hat : At (reference classId) (.ref id) s v) : id.validate = .ok () := by
  obtain ⟨j, hj⟩ := h.part hat
  exact (writeReference_eq_ok.1 (hj "")).2.1

/-- What is written is not obstructed. The alternatives of a union inside are smaller than the whole
shape, and those that the union tries can write its value. -/
theorem Writable.unobstructed {s : Shape} {v : Value} (h : Writable s v) : Unobstructed s v := by
  refine .intro (fun _ _ => h.reference_valid) fun alternatives x hat => ?_
  have hsmaller : ∀ b ∈ alternatives, sizeOf b < sizeOf s := by
    intro b hb
    have hle := hat.part.sizeOf_le
    have hlt := List.sizeOf_lt_of_mem hb
    rw [union.sizeOf_spec] at hle
    omega
  obtain ⟨earlier, a, later, hsplit, hpasses, haccepts, j, w, hj, hread, hsame⟩ :=
    writable_union_iff.1 (h.part hat)
  have hback : ReadsBack alternatives a x := by
    intro i hi
    obtain rfl : j = i := Except.ok.inj ((hj "").symm.trans (hi ""))
    exact ⟨w, hread, hsame⟩
  have hmem : a ∈ alternatives := hsplit ▸ List.mem_append_right _ List.mem_cons_self
  have hasmaller := hsmaller a hmem
  refine .intro hsplit haccepts hback (Writable.unobstructed ⟨j, hj⟩) fun b hb hacc => ?_
  have hbsmaller := hsmaller b (hsplit ▸ List.mem_append_left _ hb)
  exact Writable.unobstructed (hpasses b hb hacc)
termination_by sizeOf s

/-- A union that can write its value tells it apart. -/
theorem toldApart_of_writable {alternatives : List Shape} {x : Value}
    (h : Writable (union alternatives) x) : ToldApart alternatives x := h.unobstructed.unions .here

theorem Unobstructed.part {t s : Shape} {x v : Value} (h : Unobstructed s v)
    (hp : ∀ t' x', At t' x' t x → At t' x' s v) : Unobstructed t x :=
  .intro (fun _ _ hat => h.references (hp _ _ hat)) fun _ _ hat => h.unions (hp _ _ hat)

/-! ## Values that have the shape -/

theorem exists_each_of_forall {ss : List Shape} {vs : List Value} (hl : ss.length = vs.length)
    (h : ∀ p ∈ ss.zip vs, Writable p.1 p.2) : ∃ js, Each Writes ss vs js := by
  induction ss generalizing vs with
  | nil =>
    cases vs with
    | nil => exact ⟨[], .nil⟩
    | cons v vs => cases hl
  | cons s ss ih =>
    cases vs with
    | nil => cases hl
    | cons v vs =>
      rw [List.zip_cons_cons] at h
      obtain ⟨⟨j, hj⟩, hrest⟩ := List.forall_mem_cons.1 h
      obtain ⟨js, hjs⟩ := ih (Nat.succ.inj hl) hrest
      exact ⟨j :: js, .cons hj hjs⟩

theorem exists_membersWritten {ds : List (Member Shape)} {members : List (String × Value)}
    (h : ∀ d ∈ ds, match Entries.lookup d.name members with
      | some v => Writable d.shape v
      | none => d.isRequired = false) :
    ∃ es, MembersWritten Writes members ds es := by
  induction ds with
  | nil => exact ⟨[], .nil⟩
  | cons d ds ih =>
    obtain ⟨hd, hds⟩ := List.forall_mem_cons.1 h
    obtain ⟨es, hes⟩ := ih hds
    cases hl : Entries.lookup d.name members with
    | some v =>
      rw [hl] at hd
      obtain ⟨j, hj⟩ := hd
      exact ⟨(d.name, j) :: es, .there hl hj hes⟩
    | none =>
      rw [hl] at hd
      obtain ⟨v, hv⟩ := Option.isSome_iff_exists.1 (Option.isNone_eq_false_iff.1 hd)
      exact ⟨es, .absent hl hv hes⟩

/-- The document of a textual key is a string. -/
theorem exists_text_of_writes {key : Shape} (ht : key.isTextual = true) {k : Value} {j : Json}
    (h : Writes key k j) : ∃ text, j = .str text := by
  have hw := h ""
  cases key with
  | str | bytes | instant | uuid =>
    cases k <;> cases hw
    exact ⟨_, rfl⟩
  | choice name variants =>
    obtain ⟨text, _, _, rfl⟩ := exists_of_write_choice hw
    exact ⟨text, rfl⟩
  | _ => cases ht

theorem writable_map {key value : Shape} {entries : List (Value × Value)}
    (hk : ∀ e ∈ entries, Writable key e.1) (hw : ∀ e ∈ entries, Writable value e.2) :
    Writable (map key value) (.map entries) := by
  cases ht : key.isTextual with
  | true =>
    have hall : ∀ e ∈ entries, ∃ m, MemberWritten Writes key value e m := by
      intro e hmem
      obtain ⟨k, hk⟩ := hk e hmem
      obtain ⟨text, rfl⟩ := exists_text_of_writes ht hk
      obtain ⟨w, hw⟩ := hw e hmem
      exact ⟨(text, w), hk, hw⟩
    obtain ⟨members, hms⟩ := exists_forall₂_of_forall hall
    exact ⟨_, writes_map_object ht hms⟩
  | false =>
    have hall : ∀ e ∈ entries, ∃ j, PairWritten Writes key value e j := by
      intro e hmem
      obtain ⟨k, hk⟩ := hk e hmem
      obtain ⟨w, hw⟩ := hw e hmem
      exact ⟨.arr [k, w], k, w, rfl, hk, hw⟩
    obtain ⟨pairs, hps⟩ := exists_forall₂_of_forall hall
    exact ⟨_, writes_map_pairs ht hps⟩

/-- The alternative that tells the value apart writes it, and those before it are not in the way. -/
theorem ToldApart.writable {alternatives : List Shape} {x : Value} (h : ToldApart alternatives x)
    (hall : ∀ b ∈ alternatives, b.accepts x = true → Unobstructed b x → Writable b x) :
    Writable (union alternatives) x := by
  cases h with
  | @intro _ earlier later a _ hsplit haccepts hback hclear hpassed =>
    subst hsplit
    obtain ⟨j, hj⟩ := hall a (List.mem_append_right _ List.mem_cons_self) haccepts hclear
    obtain ⟨w, hread, hsame⟩ := hback j hj
    have hpasses : ∀ b ∈ earlier, Passes b x := fun b hb hacc =>
      hall b (List.mem_append_left _ hb) hacc (hpassed b hb hacc)
    exact writable_union_iff.2 ⟨earlier, a, later, rfl, hpasses, haccepts, j, w, hj, hread, hsame⟩

/-- Untyped data can always be written. -/
theorem writable_of_isPlain {v : Value} (h : v.isPlain = true) : Writable any v := by
  induction v with
  | null | bool | int | str => exact ⟨_, fun _ => rfl⟩
  | float x => exact ⟨_, fun _ => writeFloat_eq_ok.2 ⟨h, rfl⟩⟩
  | list items ih =>
    obtain ⟨js, hjs⟩ := exists_forall₂_of_forall fun v hv => ih v hv (allPlain_iff.1 h v hv)
    exact ⟨_, fun _ => map_eq_ok.2 ⟨js, plainArray_of_forall₂ hjs, rfl⟩⟩
  | record members ih =>
    have hall : ∀ m ∈ members, ∃ e, PlainMember Writes m e := by
      intro m hm
      obtain ⟨j, hj⟩ := ih m hm (membersPlain_iff.1 h m hm)
      exact ⟨(m.1, j), rfl, hj⟩
    obtain ⟨es, hes⟩ := exists_forall₂_of_forall hall
    exact ⟨_, fun _ => map_eq_ok.2 ⟨es, plainObject_of_forall₂ hes, rfl⟩⟩
  | bytes | instant | uuid | ref | set | tuple | map => cases h

/-- A value that has the shape can be written if nothing in it refuses to be. -/
theorem writable_of_accepts {s : Shape} {v : Value} (h : s.accepts v = true)
    (hv : Unobstructed s v) : Writable s v := by
  induction s generalizing v with
  | int | bool | str | bytes | instant | uuid =>
    cases v <;> first | exact ⟨_, fun _ => rfl⟩ | cases h
  | float =>
    cases v with
    | float x => exact ⟨_, fun _ => writeFloat_eq_ok.2 ⟨h, rfl⟩⟩
    | _ => cases h
  | choice name variants =>
    cases v with
    | str text => exact ⟨_, writes_choice (List.contains_iff_mem.1 h)⟩
    | _ => cases h
  | reference classId =>
    cases v with
    | ref id =>
      have hclass : id.classId = classId := eq_of_beq h
      have hvalid := hv.references .here
      exact ⟨id.json, fun _ => writeReference_eq_ok.2 ⟨hclass, hvalid, rfl⟩⟩
    | _ => cases h
  | any => exact writable_of_isPlain h
  | optional inner ih =>
    by_cases hnull : v = .null
    · subst hnull
      exact ⟨.null, fun _ => rfl⟩
    · have hinner : inner.accepts v = true := by
        cases v with
        | null => exact absurd rfl hnull
        | _ => exact h
      obtain ⟨j, hj⟩ := ih hinner (hv.part fun _ _ => .optional hnull)
      exact ⟨j, fun q => (write_optional hnull).trans (hj q)⟩
  | union alternatives ih => exact (hv.unions .here).writable fun b hb => ih b hb
  | list element ih =>
    cases v with
    | list items =>
      obtain ⟨js, hjs⟩ := exists_forall₂_of_forall fun v hmem =>
        ih (List.all_eq_true.1 h v hmem) (hv.part fun _ _ => .list hmem)
      exact ⟨_, writes_list hjs⟩
    | _ => cases h
  | set element ih =>
    cases v with
    | set items =>
      obtain ⟨js, hjs⟩ := exists_forall₂_of_forall fun v hmem =>
        ih (List.all_eq_true.1 h v (Ordered.mem_of_mem_distinct hmem))
          (hv.part fun _ _ => .set hmem)
      exact ⟨_, writes_set hjs⟩
    | _ => cases h
  | tuple elements ih =>
    cases v with
    | tuple items =>
      obtain ⟨hl, hall⟩ := eachAccepts_iff.1 h
      obtain ⟨js, hjs⟩ := exists_each_of_forall hl fun p hmem =>
        ih p.1 (List.of_mem_zip hmem).1 (hall p hmem) (hv.part fun _ _ => .tuple hmem)
      exact ⟨_, writes_tuple hjs⟩
    | _ => cases h
  | map key value ihk ihv =>
    cases v with
    | map entries =>
      have hall : ∀ e ∈ entries, key.accepts e.1 = true ∧ value.accepts e.2 = true :=
        fun e hmem => Bool.and_eq_true_iff.1 (List.all_eq_true.1 h e hmem)
      exact writable_map (fun e hmem => ihk (hall e hmem).1 (hv.part fun _ _ => .key hmem))
        fun e hmem => ihv (hall e hmem).2 (hv.part fun _ _ => .value hmem)
    | _ => cases h
  | record name declared ih =>
    cases v with
    | record members =>
      obtain ⟨hnames, hmembers⟩ := Bool.and_eq_true_iff.1 h
      obtain ⟨es, hes⟩ := exists_membersWritten fun d hd => by
        have hfit := membersAccept_iff.1 hmembers d hd
        cases hl : Entries.lookup d.name members with
        | some v =>
          rw [hl] at hfit
          exact ih d hd hfit (hv.part fun _ _ => .member hd hl)
        | none =>
          rw [hl] at hfit
          exact hfit
      exact ⟨_, writes_record (Option.isNone_iff_eq_none.1 hnames) hes⟩
    | _ => cases h

/-- So it is these two, and nothing else, that keep a canonical value from being written. -/
theorem writable_iff {s : Shape} {v : Value} (h : Canonical s v) :
    Writable s v ↔ Unobstructed s v := ⟨Writable.unobstructed, writable_of_accepts h.accepts⟩

end Shape
end ObjectSpace
