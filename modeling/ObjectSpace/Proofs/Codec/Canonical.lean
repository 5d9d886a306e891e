import ObjectSpace.Proofs.Binary64.Round
import ObjectSpace.Proofs.Codec.Scalars
import ObjectSpace.Proofs.Codec.Walk
import ObjectSpace.Proofs.Json.WellFormed

/-!
# The codec lets in canonical values only

Whatever coercion makes of a value, and whatever is read from a document, is a canonical value of
the shape. For each kind of shape there is one way to build its values, and all branches of the
codec end in it.
-/

namespace ObjectSpace
namespace Shape

open Success

/-! ## Building canonical values -/

theorem canonical_setOf {element : Shape} {items : List Value}
    (h : ∀ v ∈ items, Canonical element v) : Canonical (set element) (.setOf items) :=
  .set (Ordered.increasing_distinct Value.compare items)
    fun v hv => h v (Ordered.mem_of_mem_distinct hv)

theorem canonical_tuple {α : Type} {elements : List Shape} {as : List α} {items : List Value}
    (h : Each (fun s _ v => Canonical s v) elements as items) :
    Canonical (tuple elements) (.tuple items) := by
  have hboth : elements.length = items.length ∧
      ∀ p ∈ elements.zip items, Canonical p.1 p.2 := by
    induction h with
    | nil => exact ⟨rfl, by simp⟩
    | cons hv _ ih =>
      refine ⟨congrArg Nat.succ ih.1, ?_⟩
      rw [List.zip_cons_cons]
      exact List.forall_mem_cons.2 ⟨hv, ih.2⟩
  exact .tuple hboth.1 hboth.2

theorem canonical_of_canonicalEntries {path : String} {key value : Shape}
    {entries : List (Value × Value)} {r : Value} (hk : ∀ e ∈ entries, Canonical key e.1)
    (hv : ∀ e ∈ entries, Canonical value e.2) (h : canonicalEntries path entries = .ok r) :
    Canonical (map key value) r := by
  obtain ⟨sorted, rfl, hperm, hinc⟩ := canonicalEntries_eq_ok.1 h
  exact .map hinc (fun e he => hk e (hperm.mem_iff.1 he)) fun e he => hv e (hperm.mem_iff.1 he)

/-- A record is filled by one canonical value for each declared member, in the declared order. -/
theorem canonical_ofMembers {name : String} {declared : List (Member Shape)}
    {members : List (String × Value)} (hp : ProperMembers declared)
    (h : List.Forall₂ (fun d m => m.1 = d.name ∧ Canonical d.shape m.2) declared members) :
    Canonical (record name declared) (.ofMembers members) := by
  refine .record (Entries.increasing_ofList members) (keys_ofList_of_forall₂ hp.nodup h) ?_
  intro d hd v hv
  exact of_lookup_ofList hp.nodup h hd hv

/-! ## Untyped data -/

theorem canonical_any_list {items : List Value} (h : ∀ v ∈ items, Canonical any v) :
    Canonical any (.list items) := by
  refine .any ?_ (Value.isOrdered_list fun v hv => (h v hv).isOrdered)
  exact allPlain_iff.2 fun v hv => (h v hv).accepts

theorem canonical_any_ofMembers {members : List (String × Value)}
    (h : ∀ m ∈ members, Canonical any m.2) : Canonical any (.ofMembers members) := by
  refine .any (membersPlain_iff.2 fun m hm => ?_)
    (Value.isOrdered_ofMembers fun m hm => (h m hm).isOrdered)
  obtain ⟨m', hm', hv⟩ := Entries.exists_mem_of_mem_ofList hm
  exact hv ▸ (h m' hm').accepts

theorem canonical_any_float {x : Binary64} (h : x.isFinite = true) : Canonical any (.float x) :=
  .any h (Canonical.float h).isOrdered

mutual

theorem canonical_of_coercePlain {path : String} {v r : Value} (h : coercePlain path v = .ok r) :
    Canonical any r := by
  cases v with
  | null =>
    cases h
    exact .any rfl isOrdered_null
  | bool b =>
    cases h
    exact .any rfl (Canonical.bool b).isOrdered
  | int n =>
    cases h
    exact .any rfl (Canonical.int n).isOrdered
  | str s =>
    cases h
    exact .any rfl (Canonical.str s).isOrdered
  | float x =>
    rw [coercePlain] at h
    split at h
    case isTrue hx =>
      cases h
      exact canonical_any_float hx
    case isFalse => cases h
  | list items | set items | tuple items =>
    obtain ⟨rs, hrs, rfl⟩ := map_eq_ok.1 h
    exact canonical_any_list (canonical_of_coercePlainItems hrs)
  | record members =>
    obtain ⟨rs, hrs, rfl⟩ := map_eq_ok.1 h
    exact canonical_any_ofMembers (canonical_of_coercePlainMembers hrs)
  | map entries =>
    obtain ⟨rs, hrs, rfl⟩ := map_eq_ok.1 h
    exact canonical_any_ofMembers (canonical_of_coercePlainEntries hrs)
  | bytes b | instant t | uuid u | ref id => cases h
  termination_by structural v

theorem canonical_of_coercePlainItems {path : String} {i : Nat} {vs rs : List Value}
    (h : coercePlainItems path i vs = .ok rs) : ∀ r ∈ rs, Canonical any r := by
  cases vs with
  | nil =>
    cases h
    simp
  | cons v vs =>
    obtain ⟨r, hr, h⟩ := bind_eq_ok.1 h
    obtain ⟨rs', hrs, h⟩ := bind_eq_ok.1 h
    cases h
    exact List.forall_mem_cons.2 ⟨canonical_of_coercePlain hr, canonical_of_coercePlainItems hrs⟩
  termination_by structural vs

theorem canonical_of_coercePlainMembers {path : String} {ms rs : List (String × Value)}
    (h : coercePlainMembers path ms = .ok rs) : ∀ r ∈ rs, Canonical any r.2 := by
  cases ms with
  | nil =>
    cases h
    simp
  | cons m ms =>
    obtain ⟨name, v⟩ := m
    obtain ⟨r, hr, h⟩ := bind_eq_ok.1 h
    obtain ⟨rs', hrs, h⟩ := bind_eq_ok.1 h
    cases h
    exact List.forall_mem_cons.2 ⟨canonical_of_coercePlain hr, canonical_of_coercePlainMembers hrs⟩
  termination_by structural ms

theorem canonical_of_coercePlainEntries {path : String} {es : List (Value × Value)}
    {rs : List (String × Value)} (h : coercePlainEntries path es = .ok rs) :
    ∀ r ∈ rs, Canonical any r.2 := by
  cases es with
  | nil =>
    cases h
    simp
  | cons e es =>
    obtain ⟨k, v⟩ := e
    unfold coercePlainEntries at h
    split at h
    · obtain ⟨r, hr, h⟩ := bind_eq_ok.1 h
      obtain ⟨rs', hrs, h⟩ := bind_eq_ok.1 h
      cases h
      exact List.forall_mem_cons.2
        ⟨canonical_of_coercePlain hr, canonical_of_coercePlainEntries hrs⟩
    · cases h
  termination_by structural es

end

mutual

theorem canonical_plainOfJson {j : Json} (h : j.WellFormed) : Canonical any (plainOfJson j) := by
  cases j with
  | null => exact .any rfl isOrdered_null
  | bool b => exact .any rfl (Canonical.bool b).isOrdered
  | int n =>
    rw [plainOfJson]
    split
    · exact .any rfl (Canonical.int _).isOrdered
    · exact canonical_any_float (Binary64.isFinite_ofInt h.natAbs_lt)
  | float x => exact canonical_any_float h.isFinite
  | str s => exact .any rfl (Canonical.str s).isOrdered
  | arr items => exact canonical_any_list (canonical_plainItems h.items)
  | obj members => exact canonical_any_ofMembers (canonical_plainMembers h.members)
  termination_by structural j

theorem canonical_plainItems {js : List Json} (h : ∀ j ∈ js, j.WellFormed) :
    ∀ v ∈ plainItems js, Canonical any v := by
  cases js with
  | nil => simp [plainItems]
  | cons j js =>
    obtain ⟨hj, hjs⟩ := List.forall_mem_cons.1 h
    exact List.forall_mem_cons.2 ⟨canonical_plainOfJson hj, canonical_plainItems hjs⟩
  termination_by structural js

theorem canonical_plainMembers {ms : List (String × Json)} (h : ∀ m ∈ ms, m.2.WellFormed) :
    ∀ m ∈ plainMembers ms, Canonical any m.2 := by
  cases ms with
  | nil => simp [plainMembers]
  | cons m ms =>
    obtain ⟨hm, hms⟩ := List.forall_mem_cons.1 h
    obtain ⟨name, j⟩ := m
    exact List.forall_mem_cons.2 ⟨canonical_plainOfJson hm, canonical_plainMembers hms⟩
  termination_by structural ms

end

/-! ## Scalars -/

theorem canonical_of_coerceInt {path : String} {v r : Value} (h : coerceInt path v = .ok r) :
    Canonical int r := by
  unfold coerceInt at h
  repeat' split at h
  all_goals cases h
  all_goals exact .int _

theorem canonical_of_coerceFloat {path : String} {v r : Value} (h : coerceFloat path v = .ok r) :
    Canonical float r := by
  unfold coerceFloat at h
  split at h
  case h_1 x =>
    split at h
    case isTrue hx =>
      cases h
      exact .float hx
    case isFalse => cases h
  case h_2 n =>
    split at h
    case isTrue hn =>
      cases h
      refine .float (Binary64.isFinite_ofInt ?_)
      simp only [maxExactInt] at hn
      omega
    case isFalse => cases h
  case h_3 s =>
    split at h
    case h_1 x hx =>
      cases h
      exact .float (Option.filter_eq_some_iff.1 hx).2
    case h_2 => cases h
  case h_4 => cases h

theorem canonical_of_coerceBool {path : String} {v r : Value} (h : coerceBool path v = .ok r) :
    Canonical bool r := by
  unfold coerceBool at h
  repeat' split at h
  all_goals cases h
  all_goals exact .bool _

theorem canonical_of_coerceStr {path : String} {v r : Value} (h : coerceStr path v = .ok r) :
    Canonical str r := by
  unfold coerceStr at h
  repeat' split at h
  all_goals cases h
  all_goals exact .str _

theorem canonical_of_coerceBytes {path : String} {v r : Value} (h : coerceBytes path v = .ok r) :
    Canonical bytes r := by
  unfold coerceBytes at h
  split at h
  · cases h
    exact .bytes _
  · cases h
    exact .bytes _
  · obtain ⟨bs, _, rfl⟩ := map_eq_ok.1 h
    exact .bytes _
  · cases h

theorem canonical_of_bytesOfText {path text : String} {r : Value}
    (h : bytesOfText path text = .ok r) : Canonical bytes r := by
  obtain ⟨b, _, rfl⟩ := bytesOfText_eq_ok.1 h
  exact .bytes b

theorem canonical_of_instantOfText {path text : String} {r : Value}
    (h : instantOfText path text = .ok r) : Canonical instant r := by
  obtain ⟨t, _, rfl⟩ := instantOfText_eq_ok.1 h
  exact .instant t

theorem canonical_of_uuidOfText {reason path text : String} {r : Value}
    (h : uuidOfText reason path text = .ok r) : Canonical uuid r := by
  obtain ⟨u, _, rfl⟩ := uuidOfText_eq_ok.1 h
  exact .uuid u

theorem canonical_of_choiceOfText {name : String} {variants : List String} {path text : String}
    {r : Value} (h : choiceOfText name variants path text = .ok r) :
    Canonical (choice name variants) r := by
  obtain ⟨hmem, rfl⟩ := choiceOfText_eq_ok.1 h
  exact .choice hmem

theorem canonical_of_coerceInstant {path : String} {v r : Value}
    (h : coerceInstant path v = .ok r) : Canonical instant r := by
  unfold coerceInstant at h
  split at h
  · cases h
    exact .instant _
  · exact canonical_of_instantOfText h
  · cases h

theorem canonical_of_coerceUuid {path : String} {v r : Value} (h : coerceUuid path v = .ok r) :
    Canonical uuid r := by
  unfold coerceUuid at h
  split at h
  · cases h
    exact .uuid _
  · exact canonical_of_uuidOfText h
  · cases h

theorem canonical_of_coerceChoice {name : String} {variants : List String} {path : String}
    {v r : Value} (h : coerceChoice name variants path v = .ok r) :
    Canonical (choice name variants) r := by
  unfold coerceChoice at h
  split at h
  · exact canonical_of_choiceOfText h
  · cases h

theorem canonical_of_coerceReference {classId path : String} {v r : Value}
    (h : coerceReference classId path v = .ok r) : Canonical (reference classId) r := by
  obtain ⟨id, _, h⟩ := bind_eq_ok.1 h
  obtain ⟨_, hc, h⟩ := bind_eq_ok.1 h
  cases h
  obtain rfl := checkClass_eq_ok.1 hc
  exact .reference id

theorem canonical_of_readReference {classId path : String} {j : Json} {r : Value}
    (h : readReference classId path j = .ok r) : Canonical (reference classId) r := by
  obtain ⟨_, id, _, rfl, _, rfl, _⟩ := readReference_eq_ok.1 h
  exact .reference id

theorem canonical_of_readInt {path : String} {j : Json} {r : Value} (h : readInt path j = .ok r) :
    Canonical int r := by
  obtain ⟨_, n, _, _, rfl⟩ := readInt_eq_ok.1 h
  exact .int n

theorem canonical_of_readFloat {path : String} {j : Json} {r : Value} (hj : j.WellFormed)
    (h : readFloat path j = .ok r) : Canonical float r := by
  unfold readFloat at h
  split at h
  · split at h
    · cases h
    · cases h
      exact .float (Binary64.isFinite_ofInt hj.natAbs_lt)
  · cases h
    exact .float hj.isFinite
  · cases h

/-! ## All shapes -/

theorem canonical_of_eachAt {α : Type} {element : Shape}
    {step : Nat → α → Except Mismatch Value} {i : Nat} {as : List α} {rs : List Value}
    (h : eachAt step i as = .ok rs)
    (ih : ∀ a ∈ as, ∀ k r, step k a = .ok r → Canonical element r) :
    ∀ r ∈ rs, Canonical element r := by
  intro r hr
  obtain ⟨a, ha, k, hk⟩ := exists_of_mem_right (forall₂_of_eachAt h) hr
  exact ih a ha k r hk

theorem canonical_of_filled {α : Type} {step : String → Shape → α → Except Mismatch Value}
    {name : String} {declared : List (Member Shape)} {members : List (String × α)}
    {rs : List (String × Value)} (hp : ProperMembers declared)
    (h : List.Forall₂ (Filled (Somewhere step) members) declared rs)
    (ih : ∀ d ∈ declared, ∀ a, (d.name, a) ∈ members → ∀ p r, step p d.shape a = .ok r →
      Canonical d.shape r) : Canonical (record name declared) (.ofMembers rs) := by
  apply canonical_ofMembers hp
  have hmem : List.Forall₂ (fun d r => d ∈ declared ∧ Filled (Somewhere step) members d r)
      declared rs := (List.forall₂_and_left _ _).2 ⟨fun _ hd => hd, h⟩
  apply hmem.imp
  intro d r hdr
  obtain ⟨hd, hname, hr⟩ := hdr
  refine ⟨hname, ?_⟩
  cases hl : Entries.lookup d.name members with
  | some a =>
    rw [hl] at hr
    obtain ⟨p, hr⟩ := hr
    exact ih d hd a (Entries.mem_of_lookup hl) p r.2 hr
  | none =>
    rw [hl] at hr
    exact hp.ifAbsent hd hr

theorem canonical_of_each {α : Type} {step : String → Shape → α → Except Mismatch Value}
    {elements : List Shape} {as : List α} {rs : List Value}
    (h : Each (Somewhere step) elements as rs)
    (ih : ∀ s ∈ elements, ∀ a ∈ as, ∀ p r, step p s a = .ok r → Canonical s r) :
    Canonical (tuple elements) (.tuple rs) := by
  refine canonical_tuple (h.imp fun s hs a ha v hv => ?_)
  obtain ⟨p, hv⟩ := hv
  exact ih s hs a ha p v hv

theorem canonical_of_coerce {s : Shape} (hs : s.Proper) {path : String} {v r : Value}
    (h : coerce path s v = .ok r) : Canonical s r := by
  induction s generalizing path v r with
  | int => exact canonical_of_coerceInt h
  | float => exact canonical_of_coerceFloat h
  | bool => exact canonical_of_coerceBool h
  | str => exact canonical_of_coerceStr h
  | bytes => exact canonical_of_coerceBytes h
  | instant => exact canonical_of_coerceInstant h
  | uuid => exact canonical_of_coerceUuid h
  | choice name variants => exact canonical_of_coerceChoice h
  | reference classId => exact canonical_of_coerceReference h
  | any => exact canonical_of_coercePlain h
  | optional inner ih =>
    unfold coerce at h
    split at h
    · cases h
      exact .null inner
    · exact .optional (ih hs.optional h)
  | union alternatives ih =>
    unfold coerce at h
    split at h
    case h_1 result hr =>
      obtain ⟨s, hmem, hc⟩ := exists_of_coerceAccepted hr
      exact .union hmem (ih s hmem (hs.union hmem) (hc.trans h))
    case h_2 =>
      obtain ⟨s, hmem, hc⟩ := exists_of_coerceFirst (mapError_eq_ok.1 h)
      exact .union hmem (ih s hmem (hs.union hmem) hc)
  | list element ih =>
    unfold coerce at h
    split at h
    case h_1 items | h_2 items | h_3 items =>
      obtain ⟨rs, hrs, rfl⟩ := map_eq_ok.1 h
      exact .list (canonical_of_eachAt hrs fun a _ k r => ih hs.list)
    case h_4 | h_5 | h_6 => cases h
    case h_7 =>
      obtain ⟨w, hw, rfl⟩ := map_eq_ok.1 h
      exact .list (List.forall_mem_singleton.2 (ih hs.list hw))
  | set element ih =>
    unfold coerce at h
    split at h
    case h_1 items | h_2 items | h_3 items =>
      obtain ⟨rs, hrs, rfl⟩ := map_eq_ok.1 h
      exact canonical_setOf (canonical_of_eachAt hrs fun a _ k r => ih hs.set)
    case h_4 => cases h
  | tuple elements ih =>
    unfold coerce at h
    split at h
    case h_1 items | h_2 items =>
      split at h
      case isTrue hl =>
        obtain ⟨rs, hrs, rfl⟩ := map_eq_ok.1 h
        apply canonical_of_each (each_of_coerceEach hl hrs)
        intro s hmem a _ p r
        exact ih s hmem (hs.tuple hmem)
      case isFalse => cases h
    case h_3 => cases h
  | map key value ihk ihv =>
    obtain ⟨entries, _, h⟩ := bind_eq_ok.1 h
    obtain ⟨rs, hrs, h⟩ := bind_eq_ok.1 h
    have hboth : ∀ r ∈ rs, Canonical key r.1 ∧ Canonical value r.2 := by
      intro r hr
      obtain ⟨e, _, he⟩ := exists_of_mem_right (mapM_eq_ok.1 hrs) hr
      obtain ⟨hk, hv⟩ := pair_eq_ok.1 he
      exact ⟨ihk hs.key hk, ihv hs.value hv⟩
    exact canonical_of_canonicalEntries (fun r hr => (hboth r hr).1) (fun r hr => (hboth r hr).2) h
  | record name declared ih =>
    obtain ⟨members, _, h⟩ := bind_eq_ok.1 h
    split at h
    · cases h
    · obtain ⟨rs, hrs, rfl⟩ := map_eq_ok.1 h
      apply canonical_of_filled hs.members (filled_of_coerceMembers hrs)
      intro d hd a _ p r
      exact ih d hd (hs.member hd)

/-- However a document tells a map, each entry is read from a key and a value inside it. -/
theorem exists_of_read_entries {path : String} {key value : Shape} {j : Json} (hj : j.WellFormed)
    {r : Value} (h : read path (map key value) j = .ok r) :
    ∃ entries, canonicalEntries path entries = .ok r ∧ ∀ e ∈ entries,
      (∃ k : Json, k.WellFormed ∧ Somewhere read key k e.1) ∧
        ∃ w : Json, w.WellFormed ∧ Somewhere read value w e.2 := by
  obtain ⟨entries, hc, hrs⟩ := exists_of_read_map h
  refine ⟨entries, hc, fun e he => ?_⟩
  rcases hrs with ⟨members, rfl, _, hms⟩ | ⟨pairs, rfl, hps⟩
  · obtain ⟨m, hm, hk, hw⟩ := exists_of_mem_right hms he
    exact ⟨⟨_, .str m.1, hk⟩, ⟨m.2, hj.members m hm, hw⟩⟩
  · obtain ⟨_, hm, k, w, rfl, hk, hw⟩ := exists_of_mem_right hps he
    have hpair : ∀ j ∈ [k, w], j.WellFormed := (hj.items _ hm).items
    exact ⟨⟨k, hpair k (by simp), hk⟩, ⟨w, hpair w (by simp), hw⟩⟩

theorem canonical_of_read {s : Shape} (hs : s.Proper) {path : String} {j : Json} {r : Value}
    (hj : j.WellFormed) (h : read path s j = .ok r) : Canonical s r := by
  induction s generalizing path j r with
  | int => exact canonical_of_readInt h
  | float => exact canonical_of_readFloat hj h
  | bool =>
    unfold read at h
    split at h
    all_goals cases h
    exact .bool _
  | str =>
    obtain ⟨text, _, rfl⟩ := map_eq_ok.1 h
    exact .str text
  | bytes =>
    obtain ⟨text, _, h⟩ := bind_eq_ok.1 h
    exact canonical_of_bytesOfText h
  | instant =>
    obtain ⟨text, _, h⟩ := bind_eq_ok.1 h
    exact canonical_of_instantOfText h
  | uuid =>
    obtain ⟨text, _, h⟩ := bind_eq_ok.1 h
    exact canonical_of_uuidOfText h
  | choice name variants =>
    obtain ⟨text, _, h⟩ := bind_eq_ok.1 h
    exact canonical_of_choiceOfText h
  | reference classId => exact canonical_of_readReference h
  | any =>
    cases h
    exact canonical_plainOfJson hj
  | optional inner ih =>
    by_cases hnull : j = .null
    · subst hnull
      cases h
      exact .null inner
    · rw [read_optional hnull] at h
      exact .optional (ih hs.optional hj h)
  | union alternatives ih =>
    obtain ⟨s, hmem, hr⟩ := exists_of_readFirst (mapError_eq_ok.1 h)
    exact .union hmem (ih s hmem (hs.union hmem) hj hr)
  | list element ih =>
    obtain ⟨js, vs, rfl, rfl, hvs⟩ := exists_of_read_list h
    refine .list fun r hr => ?_
    obtain ⟨a, ha, _, hread⟩ := exists_of_mem_right hvs hr
    exact ih hs.list (hj.items a ha) hread
  | set element ih =>
    obtain ⟨js, vs, rfl, rfl, hvs⟩ := exists_of_read_set h
    refine canonical_setOf fun r hr => ?_
    obtain ⟨a, ha, _, hread⟩ := exists_of_mem_right hvs hr
    exact ih hs.set (hj.items a ha) hread
  | tuple elements ih =>
    obtain ⟨js, vs, rfl, rfl, hvs⟩ := exists_of_read_tuple h
    apply canonical_of_each hvs
    intro s hmem a ha p r
    exact ih s hmem (hs.tuple hmem) (hj.items a ha)
  | map key value ihk ihv =>
    obtain ⟨rs, h, hrs⟩ := exists_of_read_entries hj h
    have hboth : ∀ r ∈ rs, Canonical key r.1 ∧ Canonical value r.2 := by
      intro r hr
      obtain ⟨⟨k, hk, _, hrk⟩, v, hv, _, hrv⟩ := hrs r hr
      exact ⟨ihk hs.key hk hrk, ihv hs.value hv hrv⟩
    exact canonical_of_canonicalEntries (fun r hr => (hboth r hr).1) (fun r hr => (hboth r hr).2) h
  | record name declared ih =>
    obtain ⟨members, rs, rfl, rfl, hrs⟩ := exists_of_read_record h
    apply canonical_of_filled hs.members hrs
    intro d hd a ha p r
    exact ih d hd (hs.member hd) (hj.members _ ha)

/-- A value that the codec lets in, from loose input or from a document, has the shape; all sets and
maps in it are strictly increasing, and all its records have exactly the declared members. -/
theorem codec_result_canonical {s : Shape} (hs : s.Proper) {path : String} {r : Value}
    (h : (∃ v, coerce path s v = .ok r) ∨ ∃ j : Json, j.WellFormed ∧ read path s j = .ok r) :
    s.accepts r = true ∧ r.IsOrdered ∧ Canonical s r := by
  have hr : Canonical s r := by
    rcases h with ⟨v, hv⟩ | ⟨j, hj, hr⟩
    · exact canonical_of_coerce hs hv
    · exact canonical_of_read hs hj hr
  exact ⟨hr.accepts, hr.isOrdered, hr⟩

/-- Two whole numbers, of which the higher may be left out. -/
def bounds : Shape := .record "Bounds" [⟨"low", .int, none⟩, ⟨"high", .int, some (.int 9)⟩]

theorem properMembers_bounds :
    ProperMembers [⟨"low", .int, none⟩, ⟨"high", .int, some (.int 9)⟩] := by
  refine ⟨by decide, List.forall_mem_cons.2 ⟨?_, List.forall_mem_singleton.2 ?_⟩⟩
  · intro v hv
    cases hv
  · rintro v hv
    cases hv
    exact .int 9

theorem proper_bounds : (map str bounds).Proper := by
  refine .of_map .of_str (.of_record properMembers_bounds ?_)
  exact List.forall_mem_cons.2 ⟨.of_int, List.forall_mem_singleton.2 .of_int⟩

theorem codec_result_canonical_bounds :
    let r : Value := .map [(.str "a", .record [("high", .int 9), ("low", .int 2)])]
    coerce "" (map str bounds) (.record [("a", .record [("low", .str " 2 ")])]) = .ok r ∧
      (map str bounds).accepts r = true ∧ r.IsOrdered ∧ Canonical (map str bounds) r := by
  intro r
  have hr : coerce "" (map str bounds) (.record [("a", .record [("low", .str " 2 ")])]) = .ok r :=
    rfl
  exact ⟨hr, codec_result_canonical proper_bounds (.inl ⟨_, hr⟩)⟩

end Shape
end ObjectSpace
