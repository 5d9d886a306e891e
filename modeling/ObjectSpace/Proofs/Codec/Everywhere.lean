import ObjectSpace.Proofs.Codec.Writing

/-!
# Writing does not depend on the path

The path of a value only tells where a failure was. What a value is written as is built from what
its parts are written as, at every path at once, and a value that is written at one path is written
the same at all others.
-/

namespace ObjectSpace
namespace Shape

open Success

/-- The value is written as this document for the shape, at every path. -/
abbrev Writes (s : Shape) (v : Value) (j : Json) : Prop := Everywhere write s v j

/-! ## Writing out of parts -/

theorem writes_choice {name : String} {variants : List String} {text : String}
    (h : text ∈ variants) : Writes (choice name variants) (.str text) (.str text) := by
  intro q
  rw [write, if_pos (List.contains_iff_mem.2 h)]

theorem writes_list {element : Shape} {items : List Value} {js : List Json}
    (h : List.Forall₂ (Writes element) items js) : Writes (list element) (.list items) (.arr js) :=
  fun _ => map_eq_ok.2 ⟨js, eachAt_of_forall₂ (h.imp fun _ _ hj _ => hj _) 0, rfl⟩

theorem writes_set {element : Shape} {items : List Value} {js : List Json}
    (h : List.Forall₂ (Writes element) (Value.canonicalItems items) js) :
    Writes (set element) (.set items) (.arr js) :=
  fun _ => map_eq_ok.2 ⟨js, eachAt_of_forall₂ (h.imp fun _ _ hj _ => hj _) 0, rfl⟩

theorem writes_tuple {elements : List Shape} {items : List Value} {js : List Json}
    (h : Each Writes elements items js) : Writes (tuple elements) (.tuple items) (.arr js) := by
  have hwalk : ∀ path i, writeEach path i elements items = .ok js := by
    intro path i
    induction h generalizing i with
    | nil => rfl
    | cons hj _ ih => exact bind_eq_ok.2 ⟨_, hj _, bind_eq_ok.2 ⟨_, ih (i + 1), rfl⟩⟩
  intro q
  rw [write, if_pos h.length_eq]
  exact map_eq_ok.2 ⟨js, hwalk q 0, rfl⟩

theorem writes_map_object {key value : Shape} {entries : List (Value × Value)}
    {members : List (String × Json)} (ht : key.isTextual = true)
    (h : List.Forall₂ (MemberWritten Writes key value) entries members) :
    Writes (map key value) (.map entries) (.object members) := by
  intro q
  rw [write, if_pos ht]
  refine bind_eq_ok.2 ⟨members, mapM_eq_ok.2 (h.imp fun e m hem => ?_), rfl⟩
  exact pair_eq_ok.2 ⟨bind_eq_ok.2 ⟨_, hem.1 _, rfl⟩, hem.2 _⟩

theorem writes_map_pairs {key value : Shape} {entries : List (Value × Value)} {pairs : List Json}
    (ht : key.isTextual = false)
    (h : List.Forall₂ (PairWritten Writes key value) entries pairs) :
    Writes (map key value) (.map entries) (.arr pairs) := by
  intro q
  rw [write, if_neg (Bool.eq_false_iff.1 ht)]
  refine bind_eq_ok.2 ⟨pairs, eachAt_of_forall₂ (h.imp fun e j he k => ?_) 0, rfl⟩
  obtain ⟨kj, vj, rfl, hk, hv⟩ := he
  exact bind_eq_ok.2 ⟨kj, hk _, bind_eq_ok.2 ⟨vj, hv _, rfl⟩⟩

theorem writes_record {name : String} {declared : List (Member Shape)}
    {members : List (String × Value)} {es : List (String × Json)}
    (hnames : undeclared? declared members = none)
    (h : MembersWritten Writes members declared es) :
    Writes (record name declared) (.record members) (.object es) := by
  have hwalk : ∀ path, writeMembers path declared members = .ok es := by
    intro path
    clear hnames
    induction h with
    | nil => rfl
    | @there d ds es v j hv hj _ ih =>
      obtain ⟨name, s, default⟩ := d
      rw [writeMembers, hv]
      exact bind_eq_ok.2 ⟨j, hj _, bind_eq_ok.2 ⟨es, ih, rfl⟩⟩
    | @absent d ds es v hv hd _ ih =>
      obtain ⟨name, s, default⟩ := d
      rw [writeMembers, hv]
      exact bind_eq_ok.2 ⟨v, mapError_eq_ok.2 (absent_eq_ok.2 hd), ih⟩
  intro q
  rw [write, hnames]
  exact map_eq_ok.2 ⟨es, hwalk q, rfl⟩

theorem plainArray_of_forall₂ {path : String} {i : Nat} {vs : List Value} {js : List Json}
    (h : List.Forall₂ (Writes any) vs js) : plainArray path i vs = .ok js := by
  induction h generalizing i with
  | nil => rfl
  | cons hj _ ih => exact bind_eq_ok.2 ⟨_, hj _, bind_eq_ok.2 ⟨_, ih, rfl⟩⟩

theorem plainObject_of_forall₂ {path : String} {ms : List (String × Value)}
    {es : List (String × Json)} (h : List.Forall₂ (PlainMember Writes) ms es) :
    plainObject path ms = .ok es := by
  induction h with
  | nil => rfl
  | @cons m e ms es hm _ ih =>
    obtain ⟨name, v⟩ := m
    obtain ⟨_, j⟩ := e
    obtain ⟨rfl, hj⟩ := hm
    exact bind_eq_ok.2 ⟨j, hj _, bind_eq_ok.2 ⟨es, ih, rfl⟩⟩

theorem plainEntries_of_forall₂ {path : String} {es : List (Value × Value)}
    {ms : List (String × Json)} (h : List.Forall₂ (PlainEntry Writes) es ms) :
    plainEntries path es = .ok ms := by
  induction h with
  | nil => rfl
  | @cons e m es ms he _ ih =>
    obtain ⟨_, v⟩ := e
    obtain ⟨name, j⟩ := m
    obtain ⟨rfl, hj⟩ := he
    exact bind_eq_ok.2 ⟨j, hj _, bind_eq_ok.2 ⟨ms, ih, rfl⟩⟩

/-! ## Writing does not depend on the path -/

theorem writesPlain_of_write {v : Value} {j : Json} (h : Somewhere write any v j) :
    Writes any v j := by
  obtain ⟨p, h⟩ := h
  induction v generalizing p j with
  | null | bool | int | str => exact fun _ => h
  | bytes | instant | uuid | ref => cases h
  | float x => exact fun _ => writeFloat_eq_ok.2 (writeFloat_eq_ok.1 h)
  | list items ih | set items ih | tuple items ih =>
    obtain ⟨js, hjs, rfl⟩ := map_eq_ok.1 h
    have hall : List.Forall₂ (Writes any) items js :=
      forall₂_imp (forall₂_of_plainArray hjs) fun v hv j ⟨q, hj⟩ => ih v hv q hj
    exact fun _ => map_eq_ok.2 ⟨js, plainArray_of_forall₂ hall, rfl⟩
  | record members ih =>
    obtain ⟨es, hes, rfl⟩ := map_eq_ok.1 h
    have hall : List.Forall₂ (PlainMember Writes) members es :=
      forall₂_imp (forall₂_of_plainObject hes) fun m hm e ⟨hname, q, hj⟩ =>
        ⟨hname, ih m hm q hj⟩
    exact fun _ => map_eq_ok.2 ⟨es, plainObject_of_forall₂ hall, rfl⟩
  | map entries ih =>
    obtain ⟨ms, hms, rfl⟩ := map_eq_ok.1 h
    have hall : List.Forall₂ (PlainEntry Writes) entries ms :=
      forall₂_imp (forall₂_of_plainEntries hms) fun e he m ⟨hname, q, hj⟩ =>
        ⟨hname, (ih e he).2 q hj⟩
    exact fun _ => map_eq_ok.2 ⟨ms, plainEntries_of_forall₂ hall, rfl⟩

/-- The alternatives that are passed over are passed over wherever the value stands. -/
theorem writeFirst_everywhere {all ss : List Shape} {v : Value} {found : Option Json}
    (ih : ∀ s ∈ ss, ∀ j, Somewhere write s v j → Writes s v j) {p : String}
    (h : writeFirst p all ss v = .ok found) (q : String) : writeFirst q all ss v = .ok found := by
  have hread : ∀ {p q j v'}, readFirst p all j = .ok v' → readFirst q all j = .ok v' :=
    fun h => readFirst_everywhere (fun _ _ _ hr => reads_of_read hr) h _
  induction ss with
  | nil => exact h
  | cons s ss ih' =>
    obtain ⟨ihs, ihss⟩ := List.forall_mem_cons.1 ih
    unfold writeFirst at h ⊢
    split at h
    case isTrue hs =>
      rw [if_pos hs]
      obtain ⟨j, hj, h⟩ := bind_eq_ok.1 h
      refine bind_eq_ok.2 ⟨j, ihs j ⟨p, hj⟩ q, ?_⟩
      -- whether the document reads as the value decides, and that does not hang on the path
      cases hp : readFirst p all j with
      | ok v' =>
        rw [hp] at h
        rw [hread hp]
        dsimp only at h ⊢
        split at h
        case isTrue hsame =>
          rw [if_pos hsame]
          exact h
        case isFalse hsame =>
          rw [if_neg hsame]
          exact ih' ihss h
      | error ms =>
        rw [hp] at h
        cases hq : readFirst q all j with
        | ok v' =>
          rw [hread hq] at hp
          cases hp
        | error ms' => exact ih' ihss h
    case isFalse hs =>
      rw [if_neg hs]
      exact ih' ihss h

/-- A value that is written at one path is written the same at every path. -/
theorem writes_of_write {s : Shape} {v : Value} {j : Json} (h : Somewhere write s v j) :
    Writes s v j := by
  induction s generalizing v j with
  | int | bool | str | bytes | instant | uuid =>
    obtain ⟨p, h⟩ := h
    cases v <;> first | exact fun _ => h | cases h
  | float =>
    obtain ⟨p, h⟩ := h
    obtain ⟨x, rfl, hx⟩ := exists_of_write_float h
    exact fun _ => writeFloat_eq_ok.2 hx
  | choice name variants =>
    obtain ⟨p, h⟩ := h
    obtain ⟨text, htext, rfl, rfl⟩ := exists_of_write_choice h
    exact writes_choice htext
  | reference classId =>
    obtain ⟨p, h⟩ := h
    obtain ⟨id, rfl, hid⟩ := exists_of_write_reference h
    exact fun _ => writeReference_eq_ok.2 hid
  | any => exact writesPlain_of_write h
  | optional inner ih =>
    obtain ⟨p, h⟩ := h
    by_cases hv : v = .null
    · subst hv
      exact fun _ => h
    · rw [write_optional hv] at h
      exact fun q => (write_optional hv).trans (ih ⟨p, h⟩ q)
  | union alternatives ih =>
    obtain ⟨p, h⟩ := h
    intro q
    unfold write at h ⊢
    split at h
    case isTrue haccepts =>
      rw [if_pos haccepts]
      obtain ⟨found, hfound, h⟩ := bind_eq_ok.1 h
      refine bind_eq_ok.2 ⟨found,
        writeFirst_everywhere (fun s hs j hw => ih s hs hw) hfound q, ?_⟩
      cases found with
      | some j' => exact h
      | none => cases h
    case isFalse => cases h
  | list element ih =>
    obtain ⟨p, h⟩ := h
    obtain ⟨items, js, rfl, rfl, hjs⟩ := exists_of_write_list h
    exact writes_list (hjs.imp fun _ _ hw => ih hw)
  | set element ih =>
    obtain ⟨p, h⟩ := h
    obtain ⟨items, js, rfl, rfl, hjs⟩ := exists_of_write_set h
    exact writes_set (hjs.imp fun _ _ hw => ih hw)
  | tuple elements ih =>
    obtain ⟨p, h⟩ := h
    obtain ⟨items, js, rfl, rfl, hjs⟩ := exists_of_write_tuple h
    exact writes_tuple (hjs.imp fun s hs _ _ _ hw => ih s hs hw)
  | map key value ihk ihv =>
    obtain ⟨p, h⟩ := h
    obtain ⟨entries, rfl, ⟨members, rfl, ht, hms⟩ | ⟨pairs, rfl, ht, hps⟩⟩ :=
      exists_of_write_map h
    · exact writes_map_object ht (hms.imp fun e m hem => ⟨ihk hem.1, ihv hem.2⟩)
    · refine writes_map_pairs ht (hps.imp fun e pair he => ?_)
      obtain ⟨k, w, hpair, hk, hw⟩ := he
      exact ⟨k, w, hpair, ihk hk, ihv hw⟩
  | record name declared ih =>
    obtain ⟨p, h⟩ := h
    obtain ⟨members, es, rfl, rfl, hnames, hes⟩ := exists_of_write_record h
    exact writes_record hnames (hes.imp fun d hd v j hw => ih d hd hw)

end Shape
end ObjectSpace
