import ObjectSpace.Proofs.Codec.Canonical
import ObjectSpace.Proofs.Value.Induction

/-!
# Coercing twice

Coercion leaves a canonical value as it is, provided that the alternatives of each union exclude one
another: then a value is coerced under the very alternative that it is canonical under. So what the
codec has let in once is let in again unchanged.
-/

namespace ObjectSpace
namespace Shape

open Success

/-! ## Unions whose alternatives exclude one another -/

/-- No value is accepted by two alternatives of one union, wherever in the shape the union is. -/
def Unambiguous (s : Shape) : Prop :=
  ∀ alternatives, Part (union alternatives) s → ∀ a ∈ alternatives, ∀ b ∈ alternatives,
    ∀ v, a.accepts v = true → b.accepts v = true → a = b

theorem Part.trans {s t u : Shape} (hst : Part s t) (htu : Part t u) : Part s u := by
  induction htu with
  | self => exact hst
  | optional _ ih => exact .optional ih
  | union hs _ ih => exact .union hs ih
  | list _ ih => exact .list ih
  | set _ ih => exact .set ih
  | key _ ih => exact .key ih
  | value _ ih => exact .value ih
  | tuple hs _ ih => exact .tuple hs ih
  | member hm _ ih => exact .member hm ih

theorem Unambiguous.part {s t : Shape} (h : s.Unambiguous) (ht : Part t s) : t.Unambiguous :=
  fun alternatives hp => h alternatives (hp.trans ht)

/-- Where one alternative alone accepts a value, coercion goes by it. -/
theorem coerceAccepted_of_only {path : String} {ss : List Shape} {s : Shape} {v : Value}
    (hs : s ∈ ss) (hv : s.accepts v = true) (honly : ∀ t ∈ ss, t.accepts v = true → t = s) :
    coerceAccepted path ss v = some (coerce path s v) := by
  induction ss with
  | nil => cases hs
  | cons t ss ih =>
    rw [coerceAccepted]
    by_cases ht : t.accepts v = true
    · rw [if_pos ht, honly t List.mem_cons_self ht]
    · rw [if_neg ht]
      have hne : s ≠ t := by
        rintro rfl
        exact ht hv
      exact ih (List.mem_of_ne_of_mem hne hs) fun u hu => honly u (List.mem_cons_of_mem _ hu)

/-! ## Values that stay as they are -/

/-- Coercion makes the value out of itself, at every path. -/
abbrev Stays (s : Shape) (v : Value) : Prop := ∀ path, coerce path s v = .ok v

theorem eachAt_of_stays {element : Shape} {items : List Value}
    (h : ∀ v ∈ items, Stays element v) (path : String) :
    eachAt (fun i item => coerce (Path.index path i) element item) 0 items = .ok items := by
  apply eachAt_of_forall₂
  exact List.forall₂_same.2 fun v hv _ => h v hv _

theorem stays_set {element : Shape} {items : List Value}
    (ho : Ordered.Increasing Value.compare items) (h : ∀ v ∈ items, Stays element v) :
    Stays (set element) (.set items) := by
  have hdistinct : Value.canonicalItems items = items := Ordered.distinct_of_increasing ho
  intro path
  refine map_eq_ok.2 ⟨items, eachAt_of_stays h path, ?_⟩
  rw [Value.setOf, hdistinct]

theorem coerceEach_of_stays {path : String} {i : Nat} {elements : List Shape} {items : List Value}
    (hl : elements.length = items.length) (h : ∀ p ∈ elements.zip items, Stays p.1 p.2) :
    coerceEach path i elements items = .ok items := by
  induction elements generalizing i items with
  | nil =>
    obtain rfl := List.length_eq_zero_iff.1 hl.symm
    rfl
  | cons s ss ih =>
    cases items with
    | nil => cases hl
    | cons v vs =>
      rw [List.zip_cons_cons] at h
      obtain ⟨hv, hvs⟩ := List.forall_mem_cons.1 h
      exact bind_eq_ok.2 ⟨v, hv _, bind_eq_ok.2 ⟨vs, ih (Nat.succ.inj hl) hvs, rfl⟩⟩

theorem stays_tuple {elements : List Shape} {items : List Value}
    (hl : elements.length = items.length) (h : ∀ p ∈ elements.zip items, Stays p.1 p.2) :
    Stays (tuple elements) (.tuple items) := by
  intro path
  rw [coerce, if_pos hl.symm]
  exact map_eq_ok.2 ⟨items, coerceEach_of_stays hl h, rfl⟩

theorem stays_map {key value : Shape} {entries : List (Value × Value)}
    (ho : Entries.Increasing entries) (hk : ∀ e ∈ entries, Stays key e.1)
    (hv : ∀ e ∈ entries, Stays value e.2) : Stays (map key value) (.map entries) := by
  intro path
  refine bind_eq_ok.2 ⟨entries, rfl, bind_eq_ok.2 ⟨entries, mapM_eq_ok.2 ?_, ?_⟩⟩
  · exact List.forall₂_same.2 fun e he => pair_eq_ok.2 ⟨hk e he _, hv e he _⟩
  · exact canonicalEntries_eq_ok.2 ⟨entries, rfl, .refl _, ho⟩

/-- What is found for the declared members is what coercion makes of them, in the declared order. -/
theorem coerceMembers_of_stays {path : String} {declared : List (Member Shape)}
    {members rs : List (String × Value)}
    (h : List.Forall₂ (fun d r => r.1 = d.name ∧ Entries.lookup d.name members = some r.2)
      declared rs)
    (hs : ∀ d ∈ declared, ∀ v, Entries.lookup d.name members = some v → Stays d.shape v) :
    coerceMembers path declared members = .ok rs := by
  induction h with
  | nil => rfl
  | @cons d r ds rs hr _ ih =>
    obtain ⟨hd, hds⟩ := List.forall_mem_cons.1 hs
    obtain ⟨name, s, default⟩ := d
    obtain ⟨_, v⟩ := r
    obtain ⟨rfl, hlookup⟩ := hr
    rw [coerceMembers, hlookup]
    exact bind_eq_ok.2 ⟨v, hd v hlookup _, bind_eq_ok.2 ⟨rs, ih hds, rfl⟩⟩

theorem stays_record {name : String} {declared : List (Member Shape)}
    {members : List (String × Value)} (ho : Entries.Increasing members)
    (hn : (members.map Prod.fst).Perm (declared.map Member.name))
    (h : ∀ d ∈ declared, ∀ v, Entries.lookup d.name members = some v → Stays d.shape v) :
    Stays (record name declared) (.record members) := by
  have hfound : ∀ d ∈ declared, ∃ r : String × Value,
      r.1 = d.name ∧ Entries.lookup d.name members = some r.2 := by
    intro d hd
    obtain ⟨v, hv⟩ := exists_lookup_of_perm ho hn hd
    exact ⟨(d.name, v), rfl, hv⟩
  obtain ⟨rs, hrs⟩ := exists_forall₂_of_forall hfound
  intro path
  refine bind_eq_ok.2 ⟨members, rfl, ?_⟩
  rw [undeclared?_of_perm hn]
  refine map_eq_ok.2 ⟨rs, coerceMembers_of_stays hrs h, ?_⟩
  rw [Value.ofMembers, Entries.ofList_of_perm (perm_of_found ho hn hrs) ho]

/-! ## Untyped data -/

theorem coercePlainItems_of_stays {path : String} {i : Nat} {items : List Value}
    (h : ∀ v ∈ items, Stays any v) : coercePlainItems path i items = .ok items := by
  induction items generalizing i with
  | nil => rfl
  | cons v vs ih =>
    obtain ⟨hv, hvs⟩ := List.forall_mem_cons.1 h
    exact bind_eq_ok.2 ⟨v, hv _, bind_eq_ok.2 ⟨vs, ih hvs, rfl⟩⟩

theorem coercePlainMembers_of_stays {path : String} {members : List (String × Value)}
    (h : ∀ m ∈ members, Stays any m.2) : coercePlainMembers path members = .ok members := by
  induction members with
  | nil => rfl
  | cons m ms ih =>
    obtain ⟨hm, hms⟩ := List.forall_mem_cons.1 h
    exact bind_eq_ok.2 ⟨m.2, hm _, bind_eq_ok.2 ⟨ms, ih hms, rfl⟩⟩

theorem stays_any {v : Value} (hp : v.isPlain = true) (ho : v.IsOrdered) : Stays any v := by
  induction v with
  | null | bool b | int n | str s => exact fun _ => rfl
  | float x => exact fun _ => if_pos hp
  | list items ih =>
    have hitems : ∀ v ∈ items, Stays any v := fun v hv =>
      ih v hv (allPlain_iff.1 hp v hv) fun x hx => ho x (.list hv hx)
    exact fun _ => map_eq_ok.2 ⟨items, coercePlainItems_of_stays hitems, rfl⟩
  | record members ih =>
    have hmembers : ∀ m ∈ members, Stays any m.2 := fun m hm =>
      ih m hm (membersPlain_iff.1 hp m hm) fun x hx => ho x (.member hm hx)
    have hincreasing : Entries.Increasing members := ho _ .self
    intro path
    refine map_eq_ok.2 ⟨members, coercePlainMembers_of_stays hmembers, ?_⟩
    rw [Value.ofMembers, Entries.ofList_of_perm (.refl members) hincreasing]
  | bytes | set | tuple | map | instant | uuid | ref => cases hp

/-! ## All shapes -/

theorem Canonical.stays {s : Shape} {v : Value} (h : Canonical s v) (hs : s.Unambiguous) :
    Stays s v := by
  induction h with
  | int | bool | str | bytes | instant | uuid | null => exact fun _ => rfl
  | float hx => exact fun _ => if_pos hx
  | @optional inner v _ ih =>
    intro path
    cases v with
    | null => rfl
    | _ => exact ih (hs.part (.optional .self)) path
  | @union s alternatives v hmem hv ih =>
    have honly : ∀ t ∈ alternatives, t.accepts v = true → t = s := fun t ht htv =>
      hs alternatives .self t ht s hmem v htv hv.accepts
    intro path
    rw [coerce, coerceAccepted_of_only hmem hv.accepts honly]
    exact ih (hs.part (.union hmem .self)) path
  | list _ ih =>
    have hitems := eachAt_of_stays fun v hv => ih v hv (hs.part (.list .self))
    exact fun path => map_eq_ok.2 ⟨_, hitems path, rfl⟩
  | set ho _ ih => exact stays_set ho fun v hv => ih v hv (hs.part (.set .self))
  | map ho _ _ ihk ihv =>
    exact stays_map ho (fun e he => ihk e he (hs.part (.key .self)))
      fun e he => ihv e he (hs.part (.value .self))
  | tuple hl _ ih =>
    exact stays_tuple hl fun p hp => ih p hp (hs.part (.tuple (List.of_mem_zip hp).1 .self))
  | record ho hn _ ih =>
    exact stays_record ho hn fun d hd v hv => ih d hd v hv (hs.part (.member hd .self))
  | reference id =>
    intro path
    exact bind_eq_ok.2 ⟨id, rfl, bind_eq_ok.2 ⟨(), checkClass_eq_ok.2 rfl, rfl⟩⟩
  | choice hmem => exact fun _ => choiceOfText_eq_ok.2 ⟨hmem, rfl⟩
  | any hp ho => exact stays_any hp ho

/-- What the codec lets in, from loose input or from a document, coercion leaves as it is. So
coercing twice is coercing once, and a value that was just read is stored again unchanged. -/
theorem coerce_again {s : Shape} (hs : s.Proper) (hu : s.Unambiguous) {path : String} {r : Value}
    (h : (∃ v, coerce path s v = .ok r) ∨ ∃ j : Json, j.WellFormed ∧ read path s j = .ok r)
    (path' : String) : coerce path' s r = .ok r := by
  have hr : Canonical s r := by
    rcases h with ⟨v, hv⟩ | ⟨j, hj, hr⟩
    · exact canonical_of_coerce hs hv
    · exact canonical_of_read hs hj hr
  exact hr.stays hu path'

/-- A key that is a number or a text, and tags that may be left out. -/
def entry : Shape :=
  .record "Entry" [⟨"key", .union [.int, .str], none⟩, ⟨"tags", .set .str, some (.set [])⟩]

theorem proper_entry : entry.Proper := by
  have hmembers : ProperMembers
      [⟨"key", .union [.int, .str], none⟩, ⟨"tags", .set .str, some (.set [])⟩] := by
    refine ⟨by decide, List.forall_mem_cons.2 ⟨?_, List.forall_mem_singleton.2 ?_⟩⟩
    · intro v hv
      cases hv
    · intro v hv
      cases hv
      exact .set .nil (List.forall_mem_nil _)
  have hkey : Proper (.union [.int, .str]) :=
    .of_union (List.forall_mem_cons.2 ⟨.of_int, List.forall_mem_singleton.2 .of_str⟩)
  exact .of_record hmembers
    (List.forall_mem_cons.2 ⟨hkey, List.forall_mem_singleton.2 (.of_set .of_str)⟩)

theorem unambiguous_entry : entry.Unambiguous := by
  have hdisjoint : ∀ v, ¬(int.accepts v = true ∧ str.accepts v = true) := by
    intro v
    cases v <;> simp [accepts]
  have honly : ∀ alternatives, Part (union alternatives) entry → alternatives = [.int, .str] := by
    intro alternatives hp
    cases hp with
    | member hm hp =>
      simp only [List.mem_cons, List.not_mem_nil, or_false] at hm
      rcases hm with rfl | rfl
      · cases hp with
        | self => rfl
        | union hs hp =>
          simp only [List.mem_cons, List.not_mem_nil, or_false] at hs
          rcases hs with rfl | rfl <;> cases hp
      · cases hp with
        | set hp => cases hp
  intro alternatives hp a ha b hb v hav hbv
  obtain rfl := honly alternatives hp
  simp only [List.mem_cons, List.not_mem_nil, or_false] at ha hb
  rcases ha with rfl | rfl <;> rcases hb with rfl | rfl
  · rfl
  · exact absurd ⟨hav, hbv⟩ (hdisjoint v)
  · exact absurd ⟨hbv, hav⟩ (hdisjoint v)
  · rfl

theorem coerce_again_entry :
    let v : Value := .map [(.str "key", .bool true),
      (.str "tags", .list [.str "b", .str "a", .str "b"])]
    let r : Value := .record [("key", .str "true"), ("tags", .set [.str "a", .str "b"])]
    coerce "" entry v = .ok r ∧ coerce "entry" entry r = .ok r := by
  intro v r
  have hr : coerce "" entry v = .ok r := rfl
  exact ⟨hr, coerce_again proper_entry unambiguous_entry (.inl ⟨v, hr⟩) "entry"⟩

end Shape
end ObjectSpace
