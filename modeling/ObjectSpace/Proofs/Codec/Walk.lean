import ObjectSpace.Codec.Coerce
import ObjectSpace.Proofs.Success
import ObjectSpace.Proofs.Shape.Canonical
import ObjectSpace.Proofs.Value.Order

/-!
# The walks of the codec

Reading, coercing and writing walk over the alternatives of a union, the elements of a tuple and the
members of a record in the same ways. Each way is told once, for a walk that is given by its
equations, by what the walk does with one shape.
-/

namespace ObjectSpace
namespace Shape

open Success

variable {ε α β : Type}

/-- What a step of the codec makes of something for a shape, at one path and at every path. -/
def Somewhere (step : String → Shape → α → Except ε β) (s : Shape) (a : α) (b : β) : Prop :=
  ∃ p, step p s a = .ok b

def Everywhere (step : String → Shape → α → Except ε β) (s : Shape) (a : α) (b : β) : Prop :=
  ∀ p, step p s a = .ok b

/-! ## Alternatives -/

theorem exists_of_first (first : List Shape → Except (List String) Value)
    {step : Shape → Except Mismatch Value} (hnil : first [] = .error [])
    (hcons : ∀ s ss, first (s :: ss) = match step s with
      | .ok v => .ok v
      | .error m => (first ss).mapError ((s.label ++ ": " ++ m.received) :: ·))
    {ss : List Shape} {v : Value} (h : first ss = .ok v) : ∃ s ∈ ss, step s = .ok v := by
  induction ss with
  | nil =>
    rw [hnil] at h
    cases h
  | cons s ss ih =>
    rw [hcons] at h
    split at h
    case h_1 w hw =>
      cases h
      exact ⟨s, List.mem_cons_self, hw⟩
    case h_2 =>
      obtain ⟨t, ht, hr⟩ := ih (mapError_eq_ok.1 h)
      exact ⟨t, List.mem_cons_of_mem _ ht, hr⟩

theorem exists_of_readFirst {path : String} {ss : List Shape} {j : Json} {v : Value}
    (h : readFirst path ss j = .ok v) : ∃ s ∈ ss, read path s j = .ok v :=
  exists_of_first (readFirst path · j) rfl (fun _ _ => rfl) h

theorem exists_of_coerceFirst {path : String} {ss : List Shape} {v r : Value}
    (h : coerceFirst path ss v = .ok r) : ∃ s ∈ ss, coerce path s v = .ok r :=
  exists_of_first (coerceFirst path · v) rfl (fun _ _ => rfl) h

theorem exists_of_coerceAccepted {path : String} {ss : List Shape} {v : Value}
    {result : Except Mismatch Value} (h : coerceAccepted path ss v = some result) :
    ∃ s ∈ ss, coerce path s v = result := by
  induction ss with
  | nil => cases h
  | cons s ss ih =>
    unfold coerceAccepted at h
    split at h
    · cases h
      exact ⟨s, List.mem_cons_self, rfl⟩
    · obtain ⟨t, ht, hr⟩ := ih h
      exact ⟨t, List.mem_cons_of_mem _ ht, hr⟩

section Elements

/-- Each shape of a list with its partners in two other lists. -/
inductive Each (R : Shape → α → β → Prop) : List Shape → List α → List β → Prop
  | nil : Each R [] [] []
  | cons {s ss a as b bs} : R s a b → Each R ss as bs → Each R (s :: ss) (a :: as) (b :: bs)

theorem Each.imp {R S : Shape → α → β → Prop} {ss : List Shape} {as : List α} {bs : List β}
    (h : Each R ss as bs) (hi : ∀ s ∈ ss, ∀ a ∈ as, ∀ b, R s a b → S s a b) : Each S ss as bs := by
  induction h with
  | nil => exact .nil
  | cons hr _ ih =>
    obtain ⟨hs, hss⟩ := List.forall_mem_cons.1 hi
    refine .cons (hs _ List.mem_cons_self _ hr) (ih ?_)
    intro s hmem a ha
    exact hss s hmem a (List.mem_cons_of_mem _ ha)

theorem Each.length_eq {R : Shape → α → β → Prop} {ss : List Shape} {as : List α} {bs : List β}
    (h : Each R ss as bs) : as.length = ss.length := by
  induction h with
  | nil => rfl
  | cons _ _ ih => exact congrArg Nat.succ ih

theorem Each.forall₂ {R : Shape → α → β → Prop} {ss : List Shape} {as : List α} {bs : List β}
    (h : Each R ss as bs) : List.Forall₂ (fun a b => ∃ s ∈ ss, R s a b) as bs := by
  induction h with
  | nil => exact .nil
  | cons hr _ ih =>
    exact .cons ⟨_, List.mem_cons_self, hr⟩
      (ih.imp fun _ _ ⟨s, hs, hr⟩ => ⟨s, List.mem_cons_of_mem _ hs, hr⟩)

theorem Each.exists_right {R : Shape → α → β → Prop} {ss : List Shape} {as : List α}
    {bs : List β} (h : Each R ss as bs) {b : β} (hb : b ∈ bs) : ∃ s ∈ ss, ∃ a ∈ as, R s a b := by
  induction h with
  | nil => cases hb
  | @cons s ss a as _ _ hr _ ih =>
    rcases List.mem_cons.1 hb with rfl | hb
    · exact ⟨s, List.mem_cons_self, a, List.mem_cons_self, hr⟩
    · obtain ⟨s, hs, a, ha, hr⟩ := ih hb
      exact ⟨s, List.mem_cons_of_mem _ hs, a, List.mem_cons_of_mem _ ha, hr⟩

variable {path : String} {step : String → Shape → α → Except ε β}
  {walk : Nat → List Shape → List α → Except ε (List β)}

theorem each_of_walk (hnil : ∀ i, walk i [] [] = .ok [])
    (hcons : ∀ i s ss a as, walk i (s :: ss) (a :: as) =
      step (Path.index path i) s a >>= fun b => walk (i + 1) ss as >>= fun bs => pure (b :: bs))
    {i : Nat} {ss : List Shape} {as : List α} {bs : List β} (hl : as.length = ss.length)
    (h : walk i ss as = .ok bs) : Each (Somewhere step) ss as bs := by
  induction ss generalizing i as bs with
  | nil =>
    obtain rfl := List.length_eq_zero_iff.1 hl
    rw [hnil] at h
    cases h
    exact .nil
  | cons s ss ih =>
    cases as with
    | nil => cases hl
    | cons a as =>
      rw [hcons] at h
      obtain ⟨b, hb, h⟩ := bind_eq_ok.1 h
      obtain ⟨bs', hbs, h⟩ := bind_eq_ok.1 h
      cases h
      exact .cons ⟨_, hb⟩ (ih (Nat.succ.inj hl) hbs)

theorem each_of_readEach {i : Nat} {ss : List Shape} {js : List Json} {vs : List Value}
    (hl : js.length = ss.length) (h : readEach path i ss js = .ok vs) :
    Each (Somewhere read) ss js vs :=
  each_of_walk (fun _ => rfl) (fun _ _ _ _ _ => rfl) hl h

theorem each_of_coerceEach {i : Nat} {ss : List Shape} {vs rs : List Value}
    (hl : vs.length = ss.length) (h : coerceEach path i ss vs = .ok rs) :
    Each (Somewhere coerce) ss vs rs :=
  each_of_walk (fun _ => rfl) (fun _ _ _ _ _ => rfl) hl h

theorem each_of_writeEach {i : Nat} {ss : List Shape} {vs : List Value} {js : List Json}
    (hl : vs.length = ss.length) (h : writeEach path i ss vs = .ok js) :
    Each (Somewhere write) ss vs js :=
  each_of_walk (fun _ => rfl) (fun _ _ _ _ _ => rfl) hl h

theorem readEach_of_each {i : Nat} {ss : List Shape} {js : List Json} {vs : List Value}
    (h : Each (Everywhere read) ss js vs) :
    readEach path i ss js = .ok vs := by
  induction h generalizing i with
  | nil => rfl
  | cons hr _ ih => exact bind_eq_ok.2 ⟨_, hr _, bind_eq_ok.2 ⟨_, ih, rfl⟩⟩

end Elements

section Members

variable {step : String → Shape → α → Except Mismatch Value}
  {walk : List (Member Shape) → List (String × α) → Except Mismatch (List (String × Value))}

/-- What comes out for a declared member: what is related to the member if it is there, else what
stands for it. -/
def Filled (R : Shape → α → Value → Prop) (members : List (String × α)) (d : Member Shape)
    (r : String × Value) : Prop :=
  r.1 = d.name ∧ match Entries.lookup d.name members with
    | some a => R d.shape a r.2
    | none => d.ifAbsent? = some r.2

theorem Filled.imp {R S : Shape → α → Value → Prop} {members : List (String × α)}
    {ds : List (Member Shape)} {rs : List (String × Value)}
    (h : List.Forall₂ (Filled R members) ds rs)
    (hi : ∀ d ∈ ds, ∀ a, (d.name, a) ∈ members → ∀ v, R d.shape a v → S d.shape a v) :
    List.Forall₂ (Filled S members) ds rs := by
  induction h with
  | nil => exact .nil
  | @cons d r ds rs hdr _ ih =>
    obtain ⟨hd, hds⟩ := List.forall_mem_cons.1 hi
    obtain ⟨hname, hr⟩ := hdr
    refine .cons ⟨hname, ?_⟩ (ih hds)
    cases hl : Entries.lookup d.name members with
    | some a =>
      rw [hl] at hr
      exact hd a (Entries.mem_of_lookup hl) r.2 hr
    | none =>
      rw [hl] at hr
      exact hr

theorem names_of_forall₂ {R : Member Shape → String × β → Prop} {ds : List (Member Shape)}
    {rs : List (String × β)} (h : List.Forall₂ (fun d r => r.1 = d.name ∧ R d r) ds rs) :
    rs.map Prod.fst = ds.map Member.name := by
  induction h with
  | nil => rfl
  | cons hr _ ih => rw [List.map_cons, List.map_cons, hr.1, ih]

/-- The members that are found for the declared ones are all the members. -/
theorem perm_of_found {declared : List (Member Shape)} {members rs : List (String × Value)}
    (ho : Entries.Increasing members)
    (hn : (members.map Prod.fst).Perm (declared.map Member.name))
    (h : List.Forall₂ (fun d r => r.1 = d.name ∧ Entries.lookup d.name members = some r.2)
      declared rs) : rs.Perm members := by
  have hmembers : (members.map Prod.fst).Nodup := Entries.nodup_keys_of_increasing ho
  have hrs : rs.Nodup := by
    apply List.Nodup.of_map Prod.fst
    rw [names_of_forall₂ h]
    exact hn.nodup_iff.1 hmembers
  apply (List.perm_ext_iff_of_nodup hrs (List.Nodup.of_map _ hmembers)).2
  intro m
  constructor
  · intro hm
    obtain ⟨d, _, hname, hlookup⟩ := exists_of_mem_right h hm
    have hmem := Entries.mem_of_lookup hlookup
    rwa [← hname] at hmem
  · intro hm
    obtain ⟨d, hd, hname, hlookup⟩ := exists_declared_of_mem ho hn hm
    obtain ⟨r, hr, hrname, hrlookup⟩ := exists_of_mem_left h hd
    have hvalue : r.2 = m.2 := Option.some.inj (hrlookup.symm.trans hlookup)
    have hrm : r = m := Prod.ext (hrname.trans hname) hvalue
    exact hrm ▸ hr

/-- Members that come out for declared members of different names have just these names, and each
is found by its name. -/
theorem keys_ofList_of_forall₂ {R : Member Shape → String × β → Prop} {ds : List (Member Shape)}
    {rs : List (String × β)} (hn : (ds.map Member.name).Nodup)
    (h : List.Forall₂ (fun d r => r.1 = d.name ∧ R d r) ds rs) :
    ((Entries.ofList rs).map Prod.fst).Perm (ds.map Member.name) := by
  have hnames : rs.map Prod.fst = ds.map Member.name := names_of_forall₂ h
  rw [← hnames] at hn ⊢
  exact (Entries.ofList_perm hn).map Prod.fst

theorem of_lookup_ofList {R : Member Shape → β → Prop} {ds : List (Member Shape)}
    {rs : List (String × β)} (hn : (ds.map Member.name).Nodup)
    (h : List.Forall₂ (fun d r => r.1 = d.name ∧ R d r.2) ds rs) {d : Member Shape} (hd : d ∈ ds)
    {v : β} (hv : Entries.lookup d.name (Entries.ofList rs) = some v) : R d v := by
  have hnodup : (rs.map Prod.fst).Nodup := (names_of_forall₂ h).symm ▸ hn
  have hmem : (d.name, v) ∈ rs := (Entries.ofList_perm hnodup).mem_iff.1 (Entries.mem_of_lookup hv)
  obtain ⟨d', hd', hname, hr⟩ := exists_of_mem_right h hmem
  obtain rfl : d = d' := List.inj_on_of_nodup_map hn hd hd' hname
  exact hr

theorem absent_eq_ok {path : String} {d : Member Shape} {v : Value} :
    absent path d = .ok v ↔ d.ifAbsent? = some v := by
  unfold absent
  cases d.ifAbsent? <;> simp

theorem filled_of_walk (path : String) (hnil : ∀ members, walk [] members = .ok [])
    (hcons : ∀ d ds members, walk (d :: ds) members =
      (match Entries.lookup d.name members with
        | some a => step (Path.field path d.name) d.shape a
        | none => absent (Path.field path d.name) d) >>= fun v =>
      walk ds members >>= fun rs => pure ((d.name, v) :: rs))
    {ds : List (Member Shape)} {members : List (String × α)} {rs : List (String × Value)}
    (h : walk ds members = .ok rs) : List.Forall₂ (Filled (Somewhere step) members) ds rs := by
  induction ds generalizing rs with
  | nil =>
    rw [hnil] at h
    cases h
    exact .nil
  | cons d ds ih =>
    rw [hcons] at h
    obtain ⟨v, hv, h⟩ := bind_eq_ok.1 h
    obtain ⟨rs', hrs, h⟩ := bind_eq_ok.1 h
    cases h
    refine .cons ⟨rfl, ?_⟩ (ih hrs)
    cases hl : Entries.lookup d.name members with
    | some a =>
      rw [hl] at hv
      exact ⟨_, hv⟩
    | none =>
      rw [hl] at hv
      exact absent_eq_ok.1 hv

theorem filled_of_readMembers {path : String} {ds : List (Member Shape)}
    {members : List (String × Json)} {rs : List (String × Value)}
    (h : readMembers path ds members = .ok rs) :
    List.Forall₂ (Filled (Somewhere read) members) ds rs := by
  refine filled_of_walk path (fun _ => rfl) (fun d ds members => ?_) h
  obtain ⟨name, s, default⟩ := d
  rw [readMembers]
  cases Entries.lookup name members <;> rfl

theorem filled_of_coerceMembers {path : String} {ds : List (Member Shape)}
    {members rs : List (String × Value)} (h : coerceMembers path ds members = .ok rs) :
    List.Forall₂ (Filled (Somewhere coerce) members) ds rs := by
  refine filled_of_walk path (fun _ => rfl) (fun d ds members => ?_) h
  obtain ⟨name, s, default⟩ := d
  rw [coerceMembers]
  cases Entries.lookup name members <;> rfl

theorem readMembers_of_filled {path : String} {ds : List (Member Shape)}
    {members : List (String × Json)} {rs : List (String × Value)}
    (h : List.Forall₂ (Filled (Everywhere read) members) ds rs) :
    readMembers path ds members = .ok rs := by
  induction h with
  | nil => rfl
  | @cons d r ds rs hdr _ ih =>
    obtain ⟨_, s, default⟩ := d
    obtain ⟨name, v⟩ := r
    obtain ⟨rfl, hr⟩ := hdr
    rw [readMembers]
    cases hl : Entries.lookup name members with
    | some j =>
      rw [hl] at hr
      exact bind_eq_ok.2 ⟨v, hr _, bind_eq_ok.2 ⟨rs, ih, rfl⟩⟩
    | none =>
      rw [hl] at hr
      exact bind_eq_ok.2 ⟨v, absent_eq_ok.2 hr, bind_eq_ok.2 ⟨rs, ih, rfl⟩⟩

end Members

/-! ## What is read from arrays and objects -/

/-- A document that is not null is read for an optional shape as itself. -/
theorem read_optional {path : String} {inner : Shape} {j : Json} (hj : j ≠ .null) :
    read path (optional inner) j = read path inner j := by
  cases j with
  | null => exact absurd rfl hj
  | _ => rfl

theorem exists_of_read_list {path : String} {element : Shape} {j : Json} {r : Value}
    (h : read path (list element) j = .ok r) :
    ∃ js vs, j = .arr js ∧ r = .list vs ∧ List.Forall₂ (Somewhere read element) js vs := by
  cases j with
  | arr js =>
    obtain ⟨vs, hvs, rfl⟩ := map_eq_ok.1 h
    exact ⟨js, vs, rfl, rfl, (forall₂_of_eachAt hvs).imp fun _ _ ⟨_, hv⟩ => ⟨_, hv⟩⟩
  | _ => cases h

theorem exists_of_read_set {path : String} {element : Shape} {j : Json} {r : Value}
    (h : read path (set element) j = .ok r) :
    ∃ js vs, j = .arr js ∧ r = .setOf vs ∧ List.Forall₂ (Somewhere read element) js vs := by
  cases j with
  | arr js =>
    obtain ⟨vs, hvs, rfl⟩ := map_eq_ok.1 h
    exact ⟨js, vs, rfl, rfl, (forall₂_of_eachAt hvs).imp fun _ _ ⟨_, hv⟩ => ⟨_, hv⟩⟩
  | _ => cases h

theorem exists_of_read_tuple {path : String} {elements : List Shape} {j : Json} {r : Value}
    (h : read path (tuple elements) j = .ok r) :
    ∃ js vs, j = .arr js ∧ r = .tuple vs ∧ Each (Somewhere read) elements js vs := by
  cases j with
  | arr js =>
    rw [read] at h
    split at h
    case isTrue hl =>
      obtain ⟨vs, hvs, rfl⟩ := map_eq_ok.1 h
      exact ⟨js, vs, rfl, rfl, each_of_readEach hl hvs⟩
    case isFalse => cases h
  | _ => cases h

theorem exists_of_read_record {path name : String} {declared : List (Member Shape)} {j : Json}
    {r : Value} (h : read path (record name declared) j = .ok r) :
    ∃ members rs, j = .obj members ∧ r = .ofMembers rs ∧
      List.Forall₂ (Filled (Somewhere read) members) declared rs := by
  cases j with
  | obj members =>
    obtain ⟨rs, hrs, rfl⟩ := map_eq_ok.1 h
    exact ⟨members, rs, rfl, rfl, filled_of_readMembers hrs⟩
  | _ => cases h

/-! ## Entries -/

/-- The entries of a map come out in strict key order, and any order of them will do. -/
theorem canonicalEntries_eq_ok {path : String} {entries : List (Value × Value)} {r : Value} :
    canonicalEntries path entries = .ok r ↔
      ∃ sorted, r = .map sorted ∧ sorted.Perm entries ∧ Entries.Increasing sorted := by
  unfold canonicalEntries
  dsimp only
  constructor
  · intro h
    split at h
    · cases h
    case h_2 hnone =>
      cases h
      exact ⟨_, rfl, Ordered.sort_perm entries,
        Ordered.increasing_of_firstRepeat (Ordered.pairwise_sort entries) hnone⟩
  · rintro ⟨sorted, rfl, hperm, hinc⟩
    have hsort : Ordered.sort (fun a b : Value × Value => Value.compare a.1 b.1) entries = sorted :=
      Ordered.sort_of_perm hperm.symm hinc
    have hnone : Ordered.firstRepeat (fun a b : Value × Value => Value.compare a.1 b.1) sorted =
        none := Ordered.firstRepeat_of_increasing hinc
    rw [hsort, hnone]

/-- What is read for a member of an object, and for an item of an array of pairs. -/
def MemberRead (R : Shape → Json → Value → Prop) (key value : Shape) (m : String × Json)
    (e : Value × Value) : Prop := R key (.str m.1) e.1 ∧ R value m.2 e.2

def PairRead (R : Shape → Json → Value → Prop) (key value : Shape) (j : Json)
    (e : Value × Value) : Prop := ∃ k v, j = .arr [k, v] ∧ R key k e.1 ∧ R value v e.2

/-- A map is read from an object, if its keys are written as strings, or from an array of pairs. -/
theorem exists_of_read_map {path : String} {key value : Shape} {j : Json} {r : Value}
    (h : read path (map key value) j = .ok r) :
    ∃ entries, canonicalEntries path entries = .ok r ∧
      ((∃ members, j = .obj members ∧ key.isTextual = true ∧
          List.Forall₂ (MemberRead (Somewhere read) key value) members entries) ∨
        ∃ pairs, j = .arr pairs ∧
          List.Forall₂ (PairRead (Somewhere read) key value) pairs entries) := by
  unfold read at h
  split at h
  case h_1 members =>
    split at h
    case isTrue ht =>
      obtain ⟨entries, hes, h⟩ := bind_eq_ok.1 h
      refine ⟨entries, h, .inl ⟨members, rfl, ht, (mapM_eq_ok.1 hes).imp ?_⟩⟩
      intro m e he
      obtain ⟨hk, hv⟩ := pair_eq_ok.1 he
      exact ⟨⟨_, hk⟩, ⟨_, hv⟩⟩
    case isFalse =>
      obtain ⟨_, he, _⟩ := bind_eq_ok.1 h
      cases he
  case h_2 pairs =>
    obtain ⟨entries, hes, h⟩ := bind_eq_ok.1 h
    refine ⟨entries, h, .inr ⟨pairs, rfl, (forall₂_of_eachAt hes).imp ?_⟩⟩
    intro pair e he
    obtain ⟨i, he⟩ := he
    split at he
    case h_1 k v =>
      obtain ⟨hk, hv⟩ := pair_eq_ok.1 he
      exact ⟨k, v, rfl, ⟨_, hk⟩, ⟨_, hv⟩⟩
    case h_2 => cases he
  case h_3 =>
    obtain ⟨_, he, _⟩ := bind_eq_ok.1 h
    cases he

end Shape
end ObjectSpace
