import ObjectSpace.Proofs.Class.Fields
import ObjectSpace.Proofs.Reference.Proxy
import ObjectSpace.Proofs.Success
import ObjectSpace.Proofs.Text.Integer

/-!
# The spellings of an identity

`Identity.Spelled` lists the values that an identity can be taken from, and `Target.Names` what can
name an object. The two say nothing of ranges: a target is normalized exactly if the identity that
it names is valid, and an identity that came out of it goes through unchanged ever after.
-/

namespace ObjectSpace

open Success

namespace Identity

/-- There is a class, and the number is one of a signed word. -/
structure Valid (id : Identity) : Prop where
  classId : id.classId ≠ ""
  object : id.object.toNat < 2 ^ 63

/-- The values of the three parts. -/
structure Parts (id : Identity) (c p o : Value) : Prop where
  classId : c = .str id.classId
  partition : ∃ n : Int64, p = .int n ∧ n.toInt = id.partition.toNat
  object : ∃ n : Int64, o = .int n ∧ n.toInt = id.object.toNat

/-- A member of a record as an entry of a map. -/
def namedBy (m : String × Value) : Value × Value := (.str m.1, m.2)

/-- The value spells the identity. Keys may stand in any order, and beside others; of several
entries of a map with one key the last counts. -/
inductive Spelled (id : Identity) : Value → Prop
  | ref : Spelled id (.ref id)
  | list {c p o : Value} (h : id.Parts c p o) : Spelled id (.list [c, p, o])
  | tuple {c p o : Value} (h : id.Parts c p o) : Spelled id (.tuple [c, p, o])
  | record {members : List (String × Value)} {c p o : Value} (h : id.Parts c p o)
      (hc : Entries.lookup classKey members = some c)
      (hp : Entries.lookup partitionKey members = some p)
      (ho : Entries.lookup objectKey members = some o) : Spelled id (.record members)
  | map {members : List (String × Value)} {c p o : Value} (h : id.Parts c p o)
      (hc : Entries.IsLast classKey c members) (hp : Entries.IsLast partitionKey p members)
      (ho : Entries.IsLast objectKey o members) :
      Spelled id (.map (members.map namedBy))

variable {id : Identity}

theorem writtenObject_eq_ok {n : Int64} (h : id.writtenObject = .ok n) :
    n.toInt = id.object.toNat := by
  unfold writtenObject at h
  split at h
  case h_1 hn =>
    cases h
    exact toInt_of_int64? hn
  case h_2 => cases h

theorem exists_writtenObject : (∃ n, id.writtenObject = .ok n) ↔ id.object.toNat < 2 ^ 63 := by
  constructor
  · rintro ⟨n, hn⟩
    have hobject := writtenObject_eq_ok hn
    have hlt := n.toInt_lt
    omega
  · intro h
    have hrange : minInt64 ≤ (id.object.toNat : Int) ∧ (id.object.toNat : Int) ≤ maxInt64 := by
      unfold minInt64 maxInt64
      omega
    refine ⟨Int64.ofInt id.object.toNat, ?_⟩
    rw [writtenObject, int64?, if_pos hrange]

theorem validate_eq_ok : id.validate = .ok () ↔ id.Valid := by
  unfold validate
  split
  case isTrue hempty =>
    have hclass : id.classId = "" := String.isEmpty_iff.1 hempty
    exact ⟨nofun, fun h => absurd hclass h.classId⟩
  case isFalse hempty =>
    have hclass : id.classId ≠ "" := fun h => hempty (String.isEmpty_iff.2 h)
    rw [map_eq_ok]
    constructor
    · rintro ⟨n, hn, _⟩
      exact ⟨hclass, exists_writtenObject.1 ⟨n, hn⟩⟩
    · intro h
      obtain ⟨n, hn⟩ := exists_writtenObject.2 h.object
      exact ⟨n, hn, rfl⟩

/-! ## Reading a spelling -/

theorem classOf_eq_ok {path : String} {v : Value} {s : String} :
    classOf path v = .ok s ↔ v = .str s ∧ s ≠ "" := by
  cases v
  case str t =>
    by_cases hempty : t = ""
    · subst hempty
      simp [classOf]
    · have hkept : classOf path (.str t) = .ok t := if_neg (by simpa using hempty)
      rw [hkept]
      constructor
      · rintro ⟨⟩
        exact ⟨rfl, hempty⟩
      · rintro ⟨⟨⟩, _⟩
        rfl
  all_goals simp [classOf]

theorem partitionOf_eq_ok {path : String} {v : Value} {w : UInt32} :
    partitionOf path v = .ok w ↔ ∃ n : Int64, v = .int n ∧ n.toInt = w.toNat := by
  cases v
  case int n =>
    have hread : partitionOf path (.int n) = .ok w ↔ uint32? n.toInt = some w := by
      dsimp only [partitionOf]
      split <;> simp_all
    rw [hread, uint32?_eq_some_iff]
    simp
  all_goals simp [partitionOf]

theorem objectOf_eq_ok {path : String} {v : Value} {w : UInt64} :
    objectOf path v = .ok w ↔ ∃ n : Int64, v = .int n ∧ n.toInt = w.toNat := by
  cases v
  case int n =>
    have hread : objectOf path (.int n) = .ok w ↔ uint64? n.toInt = some w := by
      dsimp only [objectOf]
      split <;> simp_all
    rw [hread, uint64?_eq_some_iff]
    simp
  all_goals simp [objectOf]

theorem parts_eq_ok {cpath ppath opath : String} {c p o : Value} :
    (do
      let classId ← classOf cpath c
      let partition ← partitionOf ppath p
      let object ← objectOf opath o
      return (⟨classId, partition, object⟩ : Identity)) = .ok id ↔
      id.Parts c p o ∧ id.classId ≠ "" := by
  constructor
  · intro h
    obtain ⟨s, hs, h⟩ := bind_eq_ok.1 h
    obtain ⟨w, hw, h⟩ := bind_eq_ok.1 h
    obtain ⟨n, hn, h⟩ := bind_eq_ok.1 h
    cases h
    obtain ⟨hclass, hne⟩ := classOf_eq_ok.1 hs
    exact ⟨⟨hclass, partitionOf_eq_ok.1 hw, objectOf_eq_ok.1 hn⟩, hne⟩
  · rintro ⟨h, hne⟩
    refine bind_eq_ok.2 ⟨_, classOf_eq_ok.2 ⟨h.classId, hne⟩, ?_⟩
    refine bind_eq_ok.2 ⟨_, partitionOf_eq_ok.2 h.partition, ?_⟩
    exact bind_eq_ok.2 ⟨_, objectOf_eq_ok.2 h.object, rfl⟩

theorem ofItems_eq_ok (kind : String) {items : List Value} : ofItems kind items = .ok id ↔
    ∃ c p o, items = [c, p, o] ∧ id.Parts c p o ∧ id.classId ≠ "" := by
  unfold ofItems
  split
  case h_1 c p o =>
    rw [parts_eq_ok]
    constructor
    · intro h
      exact ⟨c, p, o, rfl, h⟩
    · rintro ⟨_, _, _, ⟨⟩, h⟩
      exact h
  case h_2 hlength =>
    refine ⟨nofun, ?_⟩
    rintro ⟨c, p, o, hitems, _⟩
    exact absurd hitems (hlength c p o)

theorem memberOf_eq_ok {members : List (String × Value)} {key : String} {v : Value} :
    memberOf members key = .ok v ↔ Entries.lookup key members = some v := by
  unfold memberOf
  split <;> simp_all

theorem ofMembers_eq_ok {members : List (String × Value)} : ofMembers members = .ok id ↔
    ∃ c p o, Entries.lookup classKey members = some c ∧
      Entries.lookup partitionKey members = some p ∧
      Entries.lookup objectKey members = some o ∧ id.Parts c p o ∧ id.classId ≠ "" := by
  constructor
  · intro h
    obtain ⟨s, hs, h⟩ := bind_eq_ok.1 h
    obtain ⟨w, hw, h⟩ := bind_eq_ok.1 h
    obtain ⟨n, hn, h⟩ := bind_eq_ok.1 h
    obtain ⟨c, hc, hs⟩ := bind_eq_ok.1 hs
    obtain ⟨p, hp, hw⟩ := bind_eq_ok.1 hw
    obtain ⟨o, ho, hn⟩ := bind_eq_ok.1 hn
    cases h
    obtain ⟨hclass, hne⟩ := classOf_eq_ok.1 hs
    exact ⟨c, p, o, memberOf_eq_ok.1 hc, memberOf_eq_ok.1 hp, memberOf_eq_ok.1 ho,
      ⟨hclass, partitionOf_eq_ok.1 hw, objectOf_eq_ok.1 hn⟩, hne⟩
  · rintro ⟨c, p, o, hc, hp, ho, hparts⟩
    unfold ofMembers
    rw [memberOf_eq_ok.2 hc, memberOf_eq_ok.2 hp, memberOf_eq_ok.2 ho]
    exact parts_eq_ok.2 hparts

/-- The keys of a map that spells an identity are names. -/
theorem named_eq_ok {entries : List (Value × Value)} {members : List (String × Value)} :
    entries.mapM namedEntry = .ok members ↔ entries = members.map namedBy := by
  have hentry : ∀ e m, namedEntry e = .ok m ↔ e = namedBy m := by
    rintro ⟨k, v⟩ ⟨name, w⟩
    cases k <;> simp [namedEntry, namedBy]
  simp only [mapM_eq_ok, hentry]
  induction members generalizing entries with
  | nil => simp
  | cons m ms ih => simp [List.forall₂_cons_right_iff, ih]

/-- What is read of a value is what it spells. -/
theorem ofValue_eq_ok {v : Value} (hne : id.classId ≠ "") :
    ofValue v = .ok id ↔ id.Spelled v := by
  constructor
  · intro h
    cases v
    case ref =>
      cases h
      exact .ref
    case list =>
      obtain ⟨c, p, o, rfl, hparts, _⟩ := (ofItems_eq_ok _).1 h
      exact .list hparts
    case tuple =>
      obtain ⟨c, p, o, rfl, hparts, _⟩ := (ofItems_eq_ok _).1 h
      exact .tuple hparts
    case record =>
      obtain ⟨c, p, o, hc, hp, ho, hparts, _⟩ := ofMembers_eq_ok.1 h
      exact .record hparts hc hp ho
    case map =>
      obtain ⟨members, hmembers, h⟩ := bind_eq_ok.1 h
      obtain ⟨c, p, o, hc, hp, ho, hparts, _⟩ := ofMembers_eq_ok.1 h
      rw [named_eq_ok.1 hmembers]
      exact .map hparts (Entries.lookup_ofList_iff.1 hc) (Entries.lookup_ofList_iff.1 hp)
        (Entries.lookup_ofList_iff.1 ho)
    all_goals cases h
  · intro h
    cases h with
    | ref => rfl
    | list hparts => exact (ofItems_eq_ok "list").2 ⟨_, _, _, rfl, hparts, hne⟩
    | tuple hparts => exact (ofItems_eq_ok "tuple").2 ⟨_, _, _, rfl, hparts, hne⟩
    | record hparts hc hp ho => exact ofMembers_eq_ok.2 ⟨_, _, _, hc, hp, ho, hparts, hne⟩
    | @map members c p o hparts hc hp ho =>
      refine bind_eq_ok.2 ⟨members, named_eq_ok.2 rfl, ofMembers_eq_ok.2 ⟨c, p, o, ?_⟩⟩
      exact ⟨Entries.lookup_ofList_iff.2 hc, Entries.lookup_ofList_iff.2 hp,
        Entries.lookup_ofList_iff.2 ho, hparts, hne⟩

/-! ## Spellings -/

theorem Parts.unique {a b : Identity} {c p o : Value} (ha : a.Parts c p o) (hb : b.Parts c p o) :
    a = b := by
  obtain ⟨ac, ap, ao⟩ := a
  obtain ⟨bc, bp, bo⟩ := b
  obtain ⟨rfl, ⟨n, rfl, hn⟩, ⟨m, rfl, hm⟩⟩ := ha
  obtain ⟨hclass, ⟨n', hp, hn'⟩, ⟨m', ho, hm'⟩⟩ := hb
  cases hclass
  cases hp
  cases ho
  have hpartition : ap = bp := UInt32.toNat_inj.1 (Int.ofNat.inj (hn.symm.trans hn'))
  have hobject : ao = bo := UInt64.toNat_inj.1 (Int.ofNat.inj (hm.symm.trans hm'))
  rw [hpartition, hobject]

theorem namedBy_injective : Function.Injective namedBy := by
  rintro ⟨k, v⟩ ⟨k', v'⟩ h
  cases h
  rfl

/-- No value spells two identities. -/
theorem Spelled.unique {a b : Identity} {v : Value} (ha : a.Spelled v) (hb : b.Spelled v) :
    a = b := by
  cases ha with
  | ref =>
    cases hb
    rfl
  | list ha =>
    cases hb with
    | list hb => exact ha.unique hb
  | tuple ha =>
    cases hb with
    | tuple hb => exact ha.unique hb
  | record ha hac hap hao =>
    cases hb with
    | record hb hbc hbp hbo =>
      cases hac.symm.trans hbc
      cases hap.symm.trans hbp
      cases hao.symm.trans hbo
      exact ha.unique hb
  | @map members _ _ _ ha hac hap hao =>
    generalize hv : Value.map (members.map namedBy) = v at hb
    cases hb with
    | @map members' _ _ _ hb hbc hbp hbo =>
      obtain rfl := namedBy_injective.list_map (Value.map.inj hv)
      cases hac.unique hbc
      cases hap.unique hbp
      cases hao.unique hbo
      exact ha.unique hb
    | _ => cases hv

/-- A map with the three keys in any order, and with any others, spells the identity. -/
theorem spelled_of_perm {c p o : Value} (h : id.Parts c p o) {extra members : List (String × Value)}
    (hextra : ∀ m ∈ extra, m.1 ∉ [classKey, partitionKey, objectKey])
    (hmembers : members.Perm ((classKey, c) :: (partitionKey, p) :: (objectKey, o) :: extra)) :
    id.Spelled (.map (members.map namedBy)) := by
  have hlast : ∀ k v, k ∈ [classKey, partitionKey, objectKey] →
      (∀ w, (k, w) ∈ [(classKey, c), (partitionKey, p), (objectKey, o)] ↔ w = v) →
      Entries.IsLast k v members := by
    intro k v hk honly
    have hmem : ∀ w, (k, w) ∈ members ↔ w = v := by
      intro w
      have hother : (k, w) ∉ extra := fun hw => hextra _ hw hk
      rw [hmembers.mem_iff, ← honly w]
      simp [hother]
    exact Entries.isLast_of_mem ((hmem v).2 rfl) fun w hw => (hmem w).1 hw
  refine .map h (hlast _ _ (by simp) fun w => ?_) (hlast _ _ (by simp) fun w => ?_)
    (hlast _ _ (by simp) fun w => ?_)
  all_goals simp [classKey, partitionKey, objectKey]

theorem exists_toRecord (h : id.Valid) : ∃ v, id.toRecord = .ok v ∧ id.Spelled v := by
  obtain ⟨n, hn⟩ := exists_writtenObject.2 h.object
  have hpartition : (Int64.ofNat id.partition.toNat).toInt = id.partition.toNat := by
    have hlt := id.partition.toNat_lt
    exact Int64.toInt_ofNat_of_lt (by omega)
  have hparts : id.Parts (.str id.classId) (.int (Int64.ofNat id.partition.toNat)) (.int n) :=
    ⟨rfl, ⟨_, rfl, hpartition⟩, ⟨n, rfl, writtenObject_eq_ok hn⟩⟩
  have hkeys : [classKey, partitionKey, objectKey].Nodup := by decide
  refine ⟨_, bind_eq_ok.2 ⟨n, hn, rfl⟩, .record hparts ?_ ?_ ?_⟩
  all_goals exact Entries.lookup_ofList_of_mem hkeys (by simp)

end Identity

namespace Target

/-- What the target says its identity is, in whichever form it is given. -/
inductive Names (id : Identity) : Target → Prop
  | live : Names id (.live id)
  | proxy {c : Class} : Names id (.proxy ⟨id, c⟩)
  | record : Names id (.record id)
  | parts : Names id (.parts id.classId id.partition id.object)
  | value {v : Value} (h : id.Spelled v) : Names id (.value v)

variable {t : Target} {id : Identity}

theorem identity_eq_ok (hne : id.classId ≠ "") : t.identity = .ok id ↔ t.Names id := by
  cases t
  case value v =>
    refine (Identity.ofValue_eq_ok hne).trans ⟨.value, ?_⟩
    rintro ⟨⟩
    assumption
  all_goals
    constructor
    · rintro ⟨⟩
      constructor
    · rintro ⟨⟩
      rfl

theorem normalize_eq_ok : t.normalize = .ok id ↔ t.Names id ∧ id.Valid := by
  unfold normalize
  simp only [bind_eq_ok]
  constructor
  · rintro ⟨_, hid, ⟨⟨⟩, hvalid, ⟨⟩⟩⟩
    have h := Identity.validate_eq_ok.1 hvalid
    exact ⟨(identity_eq_ok h.classId).1 hid, h⟩
  · rintro ⟨hnames, h⟩
    exact ⟨id, (identity_eq_ok h.classId).2 hnames, (), Identity.validate_eq_ok.2 h, rfl⟩

theorem normalizeFor_eq_ok {classId : String} :
    t.normalizeFor classId = .ok id ↔ t.normalize = .ok id ∧ id.classId = classId := by
  unfold normalizeFor
  rw [bind_eq_ok]
  constructor
  · rintro ⟨id', hid, h⟩
    split at h
    case isTrue hclass =>
      cases h
      exact ⟨hid, hclass⟩
    case isFalse => cases h
  · rintro ⟨hid, hclass⟩
    exact ⟨id, hid, if_pos hclass⟩

theorem Names.unique {a b : Identity} (ha : t.Names a) (hb : t.Names b) : a = b := by
  obtain ⟨ac, ap, ao⟩ := a
  obtain ⟨bc, bp, bo⟩ := b
  cases ha with
  | value ha =>
    cases hb with
    | value hb => exact ha.unique hb
  | _ =>
    cases hb
    rfl

/-- Whatever names an identity is normalized to it, or refused where the identity is not valid. A
proxy, a reference and a record that are made of what came out are normalized to the same. -/
theorem normalize_exact (t : Target) (id : Identity) :
    (t.normalize = .ok id ↔ t.Names id ∧ id.Valid) ∧
      (t.Names id → ¬ id.Valid → ∃ e, t.normalize = .error e) ∧
      (t.normalize = .ok id →
        (∀ (r : Registry) (c : Class), r.find id.classId = .ok c →
          ∃ p, r.materialize id id.classId = .ok p ∧ (proxy p).normalize = .ok id) ∧
        (value (.ref id)).normalize = .ok id ∧
        ∃ v, id.toRecord = .ok v ∧ (value v).normalize = .ok id) := by
  refine ⟨normalize_eq_ok, fun hnames hinvalid => ?_, fun h => ?_⟩
  · cases hresult : t.normalize with
    | error e => exact ⟨e, rfl⟩
    | ok other =>
      obtain ⟨hother, hvalid⟩ := normalize_eq_ok.1 hresult
      obtain rfl := hother.unique hnames
      exact absurd hvalid hinvalid
  · have hvalid := (normalize_eq_ok.1 h).2
    obtain ⟨v, hv, hspelled⟩ := Identity.exists_toRecord hvalid
    refine ⟨fun r c hc => ⟨⟨id, c⟩, Registry.materialize_eq hc, ?_⟩, ?_, v, hv, ?_⟩
    · exact normalize_eq_ok.2 ⟨.proxy, hvalid⟩
    · exact normalize_eq_ok.2 ⟨.value .ref, hvalid⟩
    · exact normalize_eq_ok.2 ⟨.value hspelled, hvalid⟩

/-- The last identity of a class that is valid. -/
def highest : Identity := ⟨"Counter", 4294967295, 9223372036854775807⟩

theorem parts_highest : highest.Parts (.str "Counter") (.int 4294967295)
    (.int 9223372036854775807) := ⟨rfl, ⟨_, rfl, by decide⟩, ⟨_, rfl, by decide⟩⟩

/-- The three keys out of order, and one that does not matter. -/
def shuffled : List (String × Value) :=
  [(Identity.objectKey, .int 9223372036854775807), ("note", .null),
    (Identity.classKey, .str "Counter"), (Identity.partitionKey, .int 4294967295)]

theorem spelled_shuffled : highest.Spelled (.map (shuffled.map Identity.namedBy)) := by
  have hperm : (shuffled.take 2 ++ shuffled.drop 2).Perm (shuffled.drop 2 ++ shuffled.take 2) :=
    List.perm_append_comm
  exact Identity.spelled_of_perm parts_highest (List.forall_mem_singleton.2 (by decide)) hperm

theorem normalize_exact_shuffled :
    (value (.map (shuffled.map Identity.namedBy))).normalize = .ok highest ∧
      (value (.ref highest)).normalize = .ok highest ∧
      (∃ v, highest.toRecord = .ok v ∧ (value v).normalize = .ok highest) ∧
      (∃ p, Registry.materialize ⟨Table.empty.insert "Counter" .counter⟩ highest "Counter" = .ok p ∧
        (proxy p).normalize = .ok highest) ∧
      ∃ e, (parts "Counter" 0 9223372036854775808).normalize = .error e := by
  have h : (value (.map (shuffled.map Identity.namedBy))).normalize = .ok highest :=
    (normalize_exact _ highest).1.2 ⟨.value spelled_shuffled, by decide, by decide⟩
  obtain ⟨hproxy, href, hrecord⟩ := (normalize_exact _ highest).2.2 h
  have hfound : Registry.find ⟨Table.empty.insert "Counter" .counter⟩ "Counter" =
      .ok Class.counter := by
    unfold Registry.find
    rw [Table.get?_insert_self]
  have hrefused : ∃ e, (parts "Counter" 0 9223372036854775808).normalize = .error e :=
    (normalize_exact _ ⟨"Counter", 0, 9223372036854775808⟩).2.1 .parts
      fun hvalid => absurd hvalid.object (by decide)
  exact ⟨h, href, hrecord, hproxy _ _ hfound, hrefused⟩

end Target
end ObjectSpace
