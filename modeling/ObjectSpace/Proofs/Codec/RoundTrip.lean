import Mathlib.Data.List.Perm.Basic
import ObjectSpace.Proofs.Codec.Canonical
import ObjectSpace.Proofs.Codec.Numbers
import ObjectSpace.Proofs.Codec.Plain
import ObjectSpace.Proofs.Identity.Json
import ObjectSpace.Proofs.Text.Hex
import ObjectSpace.Proofs.Uuid

/-!
# The round trip through JSON

A canonical value is written as a document that reads as the same value. The members of a set and
the keys of a map must come back exactly, because they are put in order again and the order tells
the two zeros apart. A union only checks that the value comes back as the same, so a union in such a
place must keep the signs of the zeros. It does where there is no negative zero.
-/

namespace ObjectSpace
namespace Shape

open Success

/-- `KeyUnion alternatives x inKey s v` says that `x` is a value of the union of these alternatives
which stands in a member of a set or in a key of a map, inside the value `v` of the shape `s`;
`inKey` tells that `v` stands in one itself. -/
inductive KeyUnion (alternatives : List Shape) (x : Value) : Bool → Shape → Value → Prop
  | here : KeyUnion alternatives x true (union alternatives) x
  | optional {inKey : Bool} {inner : Shape} {v : Value} :
      KeyUnion alternatives x inKey inner v → KeyUnion alternatives x inKey (optional inner) v
  | list {inKey : Bool} {element : Shape} {v : Value} {items : List Value} : v ∈ items →
      KeyUnion alternatives x inKey element v →
      KeyUnion alternatives x inKey (list element) (.list items)
  | set {inKey : Bool} {element : Shape} {v : Value} {items : List Value} : v ∈ items →
      KeyUnion alternatives x true element v →
      KeyUnion alternatives x inKey (set element) (.set items)
  | tuple {inKey : Bool} {elements : List Shape} {items : List Value} {p : Shape × Value} :
      p ∈ elements.zip items → KeyUnion alternatives x inKey p.1 p.2 →
      KeyUnion alternatives x inKey (tuple elements) (.tuple items)
  | key {inKey : Bool} {key value : Shape} {entries : List (Value × Value)} {e : Value × Value} :
      e ∈ entries → KeyUnion alternatives x true key e.1 →
      KeyUnion alternatives x inKey (map key value) (.map entries)
  | value {inKey : Bool} {key value : Shape} {entries : List (Value × Value)} {e : Value × Value} :
      e ∈ entries → KeyUnion alternatives x inKey value e.2 →
      KeyUnion alternatives x inKey (map key value) (.map entries)
  | member {inKey : Bool} {name : String} {declared : List (Member Shape)}
      {members : List (String × Value)} {d : Member Shape} {v : Value} : d ∈ declared →
      Entries.lookup d.name members = some v → KeyUnion alternatives x inKey d.shape v →
      KeyUnion alternatives x inKey (record name declared) (.record members)

/-- If the document of the value reads as the same value, it reads as this very value: no zero
changes its sign. -/
def KeepsZeros (s : Shape) (v : Value) : Prop :=
  ∀ j v', Somewhere write s v j → Somewhere read s j v' → v'.same v = true → v' = v

theorem keepsZeros_of_unsigned {s : Shape} {v : Value} (hv : v.Unsigned)
    (hs : ¬ Supplies .negativeZero s) : KeepsZeros s v := by
  intro j v' hw hr hsame
  refine Value.eq_of_same hsame (fun hx => ?_) hv
  rcases origin_of_read hr hx with hj | ⟨n, hn⟩ | hd
  · exact hv (within_of_write hw hj)
  · exact Binary64.ofInt_ne_negativeZero n hn.symm
  · exact hs hd

/-- What is written reads back in agreement with the value. -/
def RoundTrips (exact : Bool) (s : Shape) (v : Value) : Prop :=
  ∀ j, Somewhere write s v j → ∃ v', Reads s j v' ∧ v'.Agrees exact v

variable {exact : Bool}

theorem roundTrips_self {s : Shape} {v : Value} (hv : v.IsFinite)
    (h : ∀ p j, write p s v = .ok j → Reads s j v) : RoundTrips exact s v := by
  rintro j ⟨p, hj⟩
  exact ⟨v, h p j hj, Value.agrees_self hv⟩

theorem roundTrips_list {element : Shape} {items : List Value}
    (h : ∀ v ∈ items, RoundTrips exact element v) :
    RoundTrips exact (list element) (.list items) := by
  rintro j ⟨p, hj⟩
  obtain ⟨_, js, ⟨⟩, rfl, hjs⟩ := exists_of_write_list hj
  obtain ⟨vs, hread, hagree⟩ := exists_forall₂ hjs fun v hv j _ hw => h v hv j hw
  exact ⟨.list vs, reads_list hread, Value.agrees_list hagree⟩

theorem roundTrips_set {element : Shape} {items : List Value}
    (ho : Ordered.Increasing Value.compare items) (hf : (Value.set items).IsFinite)
    (h : ∀ v ∈ items, RoundTrips true element v) :
    RoundTrips exact (set element) (.set items) := by
  rintro j ⟨p, hj⟩
  obtain ⟨_, js, ⟨⟩, rfl, hjs⟩ := exists_of_write_set hj
  have hdistinct : Value.canonicalItems items = items := Ordered.distinct_of_increasing ho
  rw [hdistinct] at hjs
  obtain ⟨vs, hread, hagree⟩ := exists_forall₂ hjs fun v hv j _ hw => h v hv j hw
  obtain rfl : vs = items := List.forall₂_eq_eq_eq ▸ hagree
  refine ⟨.set vs, ?_, Value.agrees_self hf⟩
  have hset := reads_set hread
  rwa [Value.setOf, hdistinct] at hset

theorem exists_each_of_zip {elements : List Shape} {items : List Value} {js : List Json}
    (h : Each (Somewhere write) elements items js)
    (hr : ∀ p ∈ elements.zip items, RoundTrips exact p.1 p.2) :
    ∃ vs, Each Reads elements js vs ∧ List.Forall₂ (Value.Agrees exact) vs items := by
  induction h with
  | nil => exact ⟨[], .nil, .nil⟩
  | cons hw _ ih =>
    rw [List.zip_cons_cons] at hr
    obtain ⟨hr, hrs⟩ := List.forall_mem_cons.1 hr
    obtain ⟨v, hread, hagree⟩ := hr _ hw
    obtain ⟨vs, hreads, hagrees⟩ := ih hrs
    exact ⟨v :: vs, .cons hread hreads, .cons hagree hagrees⟩

theorem roundTrips_tuple {elements : List Shape} {items : List Value}
    (h : ∀ p ∈ elements.zip items, RoundTrips exact p.1 p.2) :
    RoundTrips exact (tuple elements) (.tuple items) := by
  rintro j ⟨p, hj⟩
  obtain ⟨_, js, ⟨⟩, rfl, hjs⟩ := exists_of_write_tuple hj
  obtain ⟨vs, hread, hagree⟩ := exists_each_of_zip hjs h
  exact ⟨.tuple vs, reads_tuple hread, Value.agrees_tuple hagree⟩

/-! ## Maps -/

/-- An entry that is read agrees with one that was written: the key exactly. -/
def EntryAgrees (exact : Bool) (e f : Value × Value) : Prop := e.1 = f.1 ∧ e.2.Agrees exact f.2

theorem keys_of_entryAgrees {es fs : List (Value × Value)}
    (h : List.Forall₂ (EntryAgrees exact) es fs) : es.map Prod.fst = fs.map Prod.fst := by
  induction h with
  | nil => rfl
  | cons hef _ ih => rw [List.map_cons, List.map_cons, hef.1, ih]

/-- Different keys have different texts, since a text reads as one key only. -/
theorem nodup_texts {key value : Shape} {members : List (String × Json)}
    {entries : List (Value × Value)}
    (h : List.Forall₂ (MemberRead Reads key value) members entries)
    (hn : (entries.map Prod.fst).Nodup) : (members.map Prod.fst).Nodup := by
  induction h with
  | nil => exact .nil
  | @cons m e members entries hme h ih =>
    obtain ⟨hfresh, hn⟩ := List.nodup_cons.1 hn
    refine List.nodup_cons.2 ⟨fun hmem => hfresh ?_, ih hn⟩
    obtain ⟨m', hm', htext⟩ := List.mem_map.1 hmem
    obtain ⟨e', he', hread⟩ := exists_of_mem_right h.flip hm'
    have hkey : e'.1 = e.1 := reads_unique (htext ▸ hread.1) hme.1
    exact List.mem_map.2 ⟨e', he', hkey⟩

theorem roundTrips_map {key value : Shape} {entries : List (Value × Value)}
    (ho : Entries.Increasing entries) (hf : ∀ e ∈ entries, e.1.IsFinite)
    (hk : ∀ e ∈ entries, RoundTrips true key e.1)
    (hv : ∀ e ∈ entries, RoundTrips exact value e.2) :
    RoundTrips exact (map key value) (.map entries) := by
  have hentry : ∀ e ∈ entries, ∀ k v, Somewhere write key e.1 k → Somewhere write value e.2 v →
      ∃ f : Value × Value, (Reads key k f.1 ∧ Reads value v f.2) ∧ EntryAgrees exact f e := by
    intro e he k v hwk hwv
    obtain ⟨k', hrk, hak⟩ := hk e he k hwk
    obtain ⟨v', hrv, hav⟩ := hv e he v hwv
    exact ⟨(k', v'), ⟨hrk, hrv⟩, hak, hav⟩
  rintro j ⟨p, hj⟩
  obtain ⟨_, ⟨⟩, ⟨members, rfl, ht, hms⟩ | ⟨pairs, rfl, _, hps⟩⟩ := exists_of_write_map hj
  · obtain ⟨es, hread, hagree⟩ := exists_forall₂ (P := MemberRead Reads key value) hms
      fun e he m _ hm => hentry e he _ _ hm.1 hm.2
    have hkeys := keys_of_entryAgrees hagree
    have hinc : Entries.Increasing es := Entries.increasing_of_keys hkeys ho
    have hnodup := nodup_texts hread (Entries.nodup_keys_of_increasing hinc)
    -- The members stand in the order of their texts, the entries in that of the keys.
    obtain ⟨fs, hread', hperm⟩ := List.perm_comp_forall₂ (Entries.ofList_perm hnodup) hread
    exact ⟨.map es, reads_map_of_obj ht hread' hperm.symm hinc, Value.agrees_map hf hagree⟩
  · obtain ⟨es, hread, hagree⟩ := exists_forall₂ (P := PairRead Reads key value) hps
      fun e he pair _ ⟨k, v, hpair, hwk, hwv⟩ =>
        (hentry e he k v hwk hwv).imp fun f hfe => ⟨⟨k, v, hpair, hfe.1⟩, hfe.2⟩
    have hinc : Entries.Increasing es :=
      Entries.increasing_of_keys (keys_of_entryAgrees hagree) ho
    exact ⟨.map es, reads_map_of_arr hread (.refl es) hinc, Value.agrees_map hf hagree⟩

/-! ## Records -/

/-- For a declared member, what is read from the written members, and the member of the record. -/
structure FieldAgrees (exact : Bool) (members : List (String × Value))
    (written : List (String × Json)) (c : (String × Value) × (String × Value))
    (d : Member Shape) : Prop where
  read : Filled Reads (Entries.ofList written) d c.1
  name : c.2.1 = d.name
  lookup : Entries.lookup d.name members = some c.2.2
  agrees : c.1.2.Agrees exact c.2.2

/-- The members that belong to the declared ones are all the members. -/
theorem perm_of_fieldAgrees {declared : List (Member Shape)} {members : List (String × Value)}
    {written : List (String × Json)} {cs : List ((String × Value) × (String × Value))}
    (ho : Entries.Increasing members)
    (hn : (members.map Prod.fst).Perm (declared.map Member.name))
    (h : List.Forall₂ (FieldAgrees exact members written) cs declared) :
    (cs.map Prod.snd).Perm members :=
  perm_of_found ho hn
    (List.forall₂_map_right_iff.2 (h.flip.imp fun _ _ hc => ⟨hc.name, hc.lookup⟩))

theorem roundTrips_record {name : String} {declared : List (Member Shape)}
    {members : List (String × Value)} (ho : Entries.Increasing members)
    (hn : (members.map Prod.fst).Perm (declared.map Member.name))
    (h : ∀ d ∈ declared, ∀ v, Entries.lookup d.name members = some v →
      RoundTrips exact d.shape v) :
    RoundTrips exact (record name declared) (.record members) := by
  rintro j ⟨p, hj⟩
  obtain ⟨_, es, ⟨⟩, rfl, _, hes⟩ := exists_of_write_record hj
  have hwritten := hes.forall₂ fun d hd => exists_lookup_of_perm ho hn hd
  have hnodup : (es.map Prod.fst).Nodup := by
    rw [names_of_forall₂ hwritten]
    exact hn.nodup_iff.1 (Entries.nodup_keys_of_increasing ho)
  obtain ⟨cs, _, hcs⟩ := exists_forall₂ (P := fun _ _ => True)
    (Q := FieldAgrees exact members es) hwritten fun d hd e he hde => by
      obtain ⟨hname, v, hv, hw⟩ := hde
      obtain ⟨v', hread, hagree⟩ := h d hd v hv e.2 hw
      have hlookup : Entries.lookup d.name (Entries.ofList es) = some e.2 :=
        Entries.lookup_ofList_of_mem hnodup (hname ▸ he)
      refine ⟨((d.name, v'), (d.name, v)), trivial, ⟨rfl, ?_⟩, rfl, hv, hagree⟩
      rw [hlookup]
      exact hread
  have hread : List.Forall₂ (Filled Reads (Entries.ofList es)) declared (cs.map Prod.fst) :=
    List.forall₂_map_right_iff.2 (hcs.flip.imp fun _ _ hc => hc.read)
  have hrelated : Entries.Related (Value.Agrees exact) (cs.map Prod.fst) (cs.map Prod.snd) := by
    refine List.forall₂_map_left_iff.2 (List.forall₂_map_right_iff.2 (List.forall₂_same.2 ?_))
    intro c hc
    obtain ⟨d, _, hcd⟩ := exists_of_mem_right hcs.flip hc
    exact ⟨hcd.read.1.trans hcd.name.symm, hcd.agrees⟩
  have hagree := Entries.related_ofList hrelated
  rw [Entries.ofList_of_perm (perm_of_fieldAgrees ho hn hcs) ho] at hagree
  exact ⟨.ofMembers (cs.map Prod.fst), reads_record hread, Value.agrees_record hagree⟩

/-! ## All shapes -/

theorem roundTrips_union {alternatives : List Shape} {v : Value}
    (h : exact = true → KeepsZeros (union alternatives) v) :
    RoundTrips exact (union alternatives) v := by
  rintro j ⟨p, hj⟩
  obtain ⟨_, v', hread, hsame⟩ := exists_of_write_union hj
  refine ⟨v', reads_of_read ⟨p, hread⟩, ?_⟩
  cases exact with
  | true => exact h rfl j v' ⟨p, hj⟩ ⟨p, hread⟩ hsame
  | false => exact hsame

theorem roundTrips_null {inner : Shape} : RoundTrips exact (optional inner) .null := by
  apply roundTrips_self (Canonical.null inner).isFinite
  intro p j hj q
  cases hj
  rfl

theorem roundTrips_optional {inner : Shape} {v : Value} (h : RoundTrips exact inner v) :
    RoundTrips exact (optional inner) v := by
  by_cases hv : v = .null
  · subst hv
    exact roundTrips_null
  · rintro j ⟨p, hj⟩
    have hinner : write p inner v = .ok j := (write_optional hv).symm.trans hj
    have hj' : j ≠ .null := by
      rintro rfl
      exact hv (eq_null_of_write_null hinner)
    obtain ⟨v', hread, hagree⟩ := h j ⟨p, hinner⟩
    refine ⟨v', ?_, hagree⟩
    intro q
    cases j with
    | null => exact absurd rfl hj'
    | _ => exact hread q

/-- The document of a canonical value reads as this value: exactly, inside a member of a set or a
key of a map, and up to the signs of zeros elsewhere. -/
theorem roundTrips_of_canonical {s : Shape} {v : Value} (h : Canonical s v)
    (hi : ∀ t, Value.Within (.instant t) v → Instant.ofText? t.text = some t)
    (hu : ∀ alternatives x, KeyUnion alternatives x exact s v →
      KeepsZeros (union alternatives) x) : RoundTrips exact s v := by
  induction h generalizing exact with
  | int n =>
    apply roundTrips_self (Canonical.int n).isFinite
    intro p j hj q
    cases hj
    exact readInt_eq_ok.2 ⟨_, n, rfl, int64?_toInt n, rfl⟩
  | float hx =>
    apply roundTrips_self (Canonical.float hx).isFinite
    intro p j hj q
    obtain ⟨_, rfl⟩ := writeFloat_eq_ok.1 hj
    rfl
  | bool b =>
    apply roundTrips_self (Canonical.bool b).isFinite
    intro p j hj q
    cases hj
    rfl
  | str s =>
    apply roundTrips_self (Canonical.str s).isFinite
    intro p j hj q
    cases hj
    rfl
  | bytes b =>
    apply roundTrips_self (Canonical.bytes b).isFinite
    intro p j hj q
    cases hj
    exact bind_eq_ok.2 ⟨_, readText_eq_ok.2 rfl,
      bytesOfText_eq_ok.2 ⟨b, Hex.decode_encode b, rfl⟩⟩
  | instant t =>
    apply roundTrips_self (Canonical.instant t).isFinite
    intro p j hj q
    cases hj
    exact bind_eq_ok.2 ⟨_, readText_eq_ok.2 rfl, instantOfText_eq_ok.2 ⟨t, hi t .self, rfl⟩⟩
  | uuid u =>
    apply roundTrips_self (Canonical.uuid u).isFinite
    intro p j hj q
    cases hj
    exact bind_eq_ok.2 ⟨_, readText_eq_ok.2 rfl, uuidOfText_eq_ok.2 ⟨u, Uuid.ofText?_text u, rfl⟩⟩
  | @choice name variants s hs =>
    apply roundTrips_self (Canonical.str s).isFinite
    intro p j hj q
    obtain ⟨_, _, ⟨⟩, rfl⟩ := exists_of_write_choice hj
    exact bind_eq_ok.2 ⟨_, readText_eq_ok.2 rfl, choiceOfText_eq_ok.2 ⟨hs, rfl⟩⟩
  | reference id =>
    apply roundTrips_self (Canonical.reference id).isFinite
    intro p j hj q
    obtain ⟨hclass, hvalid, rfl⟩ := writeReference_eq_ok.1 hj
    exact readReference_eq_ok.2
      ⟨_, id, rfl, rfl, Identity.ofJsonMembers_jsonMembers id, hclass, hvalid⟩
  | any hp ho =>
    apply roundTrips_self (isFinite_of_isPlain hp)
    intro p j hj q
    rw [read, plainOfJson_of_writePlain hp ho ⟨p, hj⟩]
  | null inner => exact roundTrips_null
  | optional _ ih =>
    exact roundTrips_optional (ih hi fun alternatives x hx => hu alternatives x (.optional hx))
  | union _ _ _ =>
    apply roundTrips_union
    intro hexact
    subst hexact
    exact hu _ _ .here
  | list _ ih =>
    refine roundTrips_list fun v hv => ih v hv (fun t ht => hi t (.list hv ht)) ?_
    intro alternatives x hx
    exact hu alternatives x (.list hv hx)
  | set ho hall ih =>
    refine roundTrips_set ho (Canonical.set ho hall).isFinite fun v hv =>
      ih v hv (fun t ht => hi t (.set hv ht)) ?_
    intro alternatives x hx
    exact hu alternatives x (.set hv hx)
  | map ho hk hv ihk ihv =>
    refine roundTrips_map ho (fun e he => (hk e he).isFinite) (fun e he => ?_) fun e he => ?_
    · exact ihk e he (fun t ht => hi t (.key he ht)) fun alternatives x hx =>
        hu alternatives x (.key he hx)
    · exact ihv e he (fun t ht => hi t (.value he ht)) fun alternatives x hx =>
        hu alternatives x (.value he hx)
  | tuple _ _ ih =>
    apply roundTrips_tuple
    intro p hp
    exact ih p hp (fun t ht => hi t (.tuple (List.of_mem_zip hp).2 ht)) fun alternatives x hx =>
      hu alternatives x (.tuple hp hx)
  | record ho hn _ ih =>
    apply roundTrips_record ho hn
    intro d hd v hv
    exact ih d hd v hv (fun t ht => hi t (.member (Entries.mem_of_lookup hv) ht))
      fun alternatives x hx => hu alternatives x (.member hd hv hx)

/-- What is coerced and written reads back as the same value, if the unions in the members of sets
and in the keys of maps keep the signs of zeros. -/
theorem read_write_coerce {s : Shape} (hs : s.Proper) {p q r : String} {v c : Value} {j : Json}
    (hc : coerce p s v = .ok c) (hj : write q s c = .ok j)
    (hi : ∀ t, Value.Within (.instant t) c → Instant.ofText? t.text = some t)
    (hu : ∀ alternatives x, KeyUnion alternatives x false s c →
      KeepsZeros (union alternatives) x) :
    ∃ c', read r s j = .ok c' ∧ c'.same c = true := by
  obtain ⟨c', hread, hagree⟩ :=
    roundTrips_of_canonical (canonical_of_coerce hs hc) hi hu j ⟨q, hj⟩
  exact ⟨c', hread r, hagree⟩

/-- A set of numbers of both kinds. -/
def numbers : Shape := set (union [int, float])

theorem proper_numbers : numbers.Proper := by
  refine Proper.of_set (Proper.of_union fun s hs => ?_)
  simp only [List.mem_cons, List.not_mem_nil, or_false] at hs
  rcases hs with rfl | rfl
  · exact Proper.of_int
  · exact Proper.of_float

theorem read_write_coerce_numbers :
    coerce "" numbers (.list [.float (.ofInt 3), .int 2]) =
        .ok (.set [.int 2, .float (.ofInt 3)]) ∧
      write "" numbers (.set [.int 2, .float (.ofInt 3)]) =
        .ok (.arr [.int 2, .float (.ofInt 3)]) ∧
      ∃ c', read "" numbers (.arr [.int 2, .float (.ofInt 3)]) = .ok c' ∧
        c'.same (.set [.int 2, .float (.ofInt 3)]) = true := by
  have hc : coerce "" numbers (.list [.float (.ofInt 3), .int 2]) =
      .ok (.set [.int 2, .float (.ofInt 3)]) := rfl
  have hj : write "" numbers (.set [.int 2, .float (.ofInt 3)]) =
      .ok (.arr [.int 2, .float (.ofInt 3)]) := rfl
  have hitems : ∀ {x v : Value}, v ∈ [Value.int 2, .float (.ofInt 3)] → Value.Within x v →
      x = .int 2 ∨ x = .float (.ofInt 3) := by
    intro x v hv hx
    simp only [List.mem_cons, List.not_mem_nil, or_false] at hv
    rcases hv with rfl | rfl <;> cases hx
    · exact .inl rfl
    · exact .inr rfl
  refine ⟨hc, hj, read_write_coerce proper_numbers hc hj ?_ ?_⟩
  · intro t ht
    cases ht with
    | set hv hx => rcases hitems hv hx with h | h <;> cases h
  · intro alternatives x h
    cases h with
    | set hv h =>
      cases h with
      | here =>
        refine keepsZeros_of_unsigned (fun hx => ?_) fun hs => ?_
        · rcases hitems hv hx with h | h
          · cases h
          · exact Binary64.ofInt_ne_negativeZero 3 (Value.float.inj h).symm
        · cases hs with
          | union hs h =>
            simp only [List.mem_cons, List.not_mem_nil, or_false] at hs
            rcases hs with rfl | rfl <;> cases h

/-! ## Zeros that change their signs -/

/-- Each of these unions writes an empty map in a tuple as the other writes one in a list. -/
def tupleFirst : Shape := union [tuple [map int int], list (map str int)]

def listFirst : Shape := union [list (map int int), tuple [map str int]]

/-- Keys that are written by the last alternative and read by the second: the first one reads what
the second one writes. -/
def clash : Shape :=
  map (union [tuple [tuple [list (list any), any], any], map tupleFirst float,
    map listFirst float]) int

def signs (x y : Binary64) : Value :=
  .map [(.tuple [.map []], .float x), (.list [.map []], .float y)]

/-- Two keys that differ in the signs of their zeros. -/
def clashing : Value :=
  .map [(signs .negativeZero .zero, .int 1), (signs .zero .negativeZero, .int 2)]

theorem proper_clash : clash.Proper := by
  have hint (key : Shape) (h : key.Proper) : (map key int).Proper := Proper.of_map h Proper.of_int
  have hfloat (key : Shape) (h : key.Proper) : (map key float).Proper :=
    Proper.of_map h Proper.of_float
  have htwo {s t : Shape} (hs : s.Proper) (ht : t.Proper) : ∀ u ∈ [s, t], u.Proper := by
    intro u hu
    simp only [List.mem_cons, List.not_mem_nil, or_false] at hu
    rcases hu with rfl | rfl
    · exact hs
    · exact ht
  have hone {s : Shape} (hs : s.Proper) : ∀ u ∈ [s], u.Proper := by
    intro u hu
    rw [List.mem_singleton.1 hu]
    exact hs
  have htuple : tupleFirst.Proper := Proper.of_union (htwo
    (Proper.of_tuple (hone (hint _ Proper.of_int))) (Proper.of_list (hint _ Proper.of_str)))
  have hlist : listFirst.Proper := Proper.of_union (htwo
    (Proper.of_list (hint _ Proper.of_int)) (Proper.of_tuple (hone (hint _ Proper.of_str))))
  refine hint _ (Proper.of_union (List.forall_mem_cons.2 ⟨?_, htwo (hfloat _ htuple)
    (hfloat _ hlist)⟩))
  exact Proper.of_tuple (htwo (Proper.of_tuple (htwo
    (Proper.of_list (Proper.of_list Proper.of_any)) Proper.of_any)) Proper.of_any)

theorem not_within_signs {t : Instant} {x y : Binary64} :
    ¬ Value.Within (.instant t) (signs x y) := by
  intro h
  cases h with
  | key he h =>
    simp only [List.mem_cons, List.not_mem_nil, or_false] at he
    rcases he with rfl | rfl
    · cases h with
      | tuple hv h =>
        rw [List.mem_singleton.1 hv] at h
        cases h with
        | key he => cases he
        | value he => cases he
    · cases h with
      | list hv h =>
        rw [List.mem_singleton.1 hv] at h
        cases h with
        | key he => cases he
        | value he => cases he
  | value he h =>
    simp only [List.mem_cons, List.not_mem_nil, or_false] at he
    rcases he with rfl | rfl <;> cases h

theorem not_within_clashing {t : Instant} : ¬ Value.Within (.instant t) clashing := by
  intro h
  cases h with
  | key he h =>
    simp only [List.mem_cons, List.not_mem_nil, or_false] at he
    rcases he with rfl | rfl <;> exact not_within_signs h
  | value he h =>
    simp only [List.mem_cons, List.not_mem_nil, or_false] at he
    rcases he with rfl | rfl <;> cases h

/-- The two keys change places, and their values with them. -/
theorem clash_not_read_back :
    ¬ ∀ (s : Shape) (v c : Value) (j : Json), s.Proper → coerce "" s v = .ok c →
      write "" s c = .ok j →
      (∀ t, Value.Within (.instant t) c → Instant.ofText? t.text = some t) →
      ∃ c', read "" s j = .ok c' ∧ c'.same c = true := by
  intro h
  have hc : coerce "" clash clashing = .ok clashing := rfl
  have hwritten : (write "" clash clashing).isOk = true := by decide +kernel
  have hread : ((write "" clash clashing).toOption.bind fun j => (read "" clash j).toOption).any
      (fun v => v.same clashing) = false := by decide +kernel
  cases hj : write "" clash clashing with
  | error e =>
    rw [hj] at hwritten
    cases hwritten
  | ok j =>
    obtain ⟨c', hr, hsame⟩ := h clash clashing clashing j proper_clash hc hj
      fun t ht => absurd ht not_within_clashing
    rw [hj] at hread
    change (read "" clash j).toOption.any (fun v => v.same clashing) = false at hread
    rw [hr] at hread
    change c'.same clashing = false at hread
    rw [hsame] at hread
    cases hread

end Shape
end ObjectSpace
