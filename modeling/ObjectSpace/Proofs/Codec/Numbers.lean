import ObjectSpace.Proofs.Codec.Writing
import ObjectSpace.Proofs.Value.Within

/-!
# Where the numbers of a value come from

A floating-point number of a document is one of the value that was written. A floating-point number
that is read is one of the document, or stands for a whole number, or belongs to the default of a
member that was left out.
-/

namespace ObjectSpace

/-- The number stands somewhere in the document. -/
inductive Json.Holds (x : Binary64) : Json → Prop
  | self : Holds x (float x)
  | item {j : Json} {items : List Json} : j ∈ items → Holds x j → Holds x (arr items)
  | member {m : String × Json} {members : List (String × Json)} :
      m ∈ members → Holds x m.2 → Holds x (obj members)

namespace Shape

open Success

/-- The number stands in a default of the shape or of a shape within it. -/
inductive Supplies (x : Binary64) : Shape → Prop
  | optional {inner : Shape} : Supplies x inner → Supplies x (optional inner)
  | union {alternatives : List Shape} {s : Shape} :
      s ∈ alternatives → Supplies x s → Supplies x (union alternatives)
  | list {element : Shape} : Supplies x element → Supplies x (list element)
  | set {element : Shape} : Supplies x element → Supplies x (set element)
  | key {key value : Shape} : Supplies x key → Supplies x (map key value)
  | value {key value : Shape} : Supplies x value → Supplies x (map key value)
  | tuple {elements : List Shape} {s : Shape} :
      s ∈ elements → Supplies x s → Supplies x (tuple elements)
  | member {name : String} {declared : List (Member Shape)} {d : Member Shape} :
      d ∈ declared → Supplies x d.shape → Supplies x (record name declared)
  | default {name : String} {declared : List (Member Shape)} {d : Member Shape} {v : Value} :
      d ∈ declared → d.default = some v → Value.Within (.float x) v →
      Supplies x (record name declared)

variable {x : Binary64}

/-! ## Writing -/

theorem exists_within_of_plainArray {path : String} {vs : List Value} {js : List Json}
    (h : plainArray path 0 vs = .ok js)
    (ih : ∀ v ∈ vs, ∀ {j}, j.Holds x → ∀ p, write p any v = .ok j → Value.Within (.float x) v)
    (hx : (Json.arr js).Holds x) : ∃ v ∈ vs, Value.Within (.float x) v := by
  cases hx with
  | item hj hx =>
    obtain ⟨v, hv, q, hw⟩ := exists_of_mem_right (forall₂_of_plainArray h) hj
    exact ⟨v, hv, ih v hv hx q hw⟩

theorem within_of_writePlain {v : Value} {j : Json} (h : Somewhere write any v j)
    (hx : j.Holds x) : Value.Within (.float x) v := by
  obtain ⟨p, h⟩ := h
  induction v generalizing p j with
  | null | bool | int | str =>
    cases h
    cases hx
  | bytes | instant | uuid | ref => cases h
  | float y =>
    obtain ⟨_, rfl⟩ := writeFloat_eq_ok.1 h
    cases hx
    exact .self
  | list items ih =>
    obtain ⟨js, hjs, rfl⟩ := map_eq_ok.1 h
    obtain ⟨v, hv, hw⟩ := exists_within_of_plainArray hjs ih hx
    exact .list hv hw
  | set items ih =>
    obtain ⟨js, hjs, rfl⟩ := map_eq_ok.1 h
    obtain ⟨v, hv, hw⟩ := exists_within_of_plainArray hjs ih hx
    exact .set hv hw
  | tuple items ih =>
    obtain ⟨js, hjs, rfl⟩ := map_eq_ok.1 h
    obtain ⟨v, hv, hw⟩ := exists_within_of_plainArray hjs ih hx
    exact .tuple hv hw
  | record members ih =>
    obtain ⟨es, hes, rfl⟩ := map_eq_ok.1 h
    cases hx with
    | member he hx =>
      obtain ⟨e, he, hv⟩ := Entries.exists_mem_of_mem_ofList he
      obtain ⟨m, hm, _, q, hw⟩ := exists_of_mem_right (forall₂_of_plainObject hes) he
      exact .member hm (ih m hm (hv ▸ hx) q hw)
  | map entries ih =>
    obtain ⟨ms, hms, rfl⟩ := map_eq_ok.1 h
    cases hx with
    | member hm hx =>
      obtain ⟨m, hm, hv⟩ := Entries.exists_mem_of_mem_ofList hm
      obtain ⟨e, he, _, q, hw⟩ := exists_of_mem_right (forall₂_of_plainEntries hms) hm
      exact .value he ((ih e he).2 (hv ▸ hx) q hw)

theorem not_holds_identity (id : Identity) : ¬ id.json.Holds x := by
  intro h
  unfold Identity.json Json.object at h
  cases h with
  | member hm hx =>
    obtain ⟨m, hm, hv⟩ := Entries.exists_mem_of_mem_ofList hm
    rw [← hv] at hx
    simp only [Identity.jsonMembers, List.mem_cons, List.not_mem_nil, or_false] at hm
    rcases hm with rfl | rfl | rfl <;> cases hx

theorem within_of_write {s : Shape} {v : Value} {j : Json} (h : Somewhere write s v j)
    (hx : j.Holds x) : Value.Within (.float x) v := by
  obtain ⟨p, h⟩ := h
  induction s generalizing p v j with
  | any => exact within_of_writePlain ⟨p, h⟩ hx
  | int | bool | str | bytes | instant | uuid =>
    cases v <;> cases h
    cases hx
  | choice name variants =>
    obtain ⟨_, _, _, rfl⟩ := exists_of_write_choice h
    cases hx
  | float =>
    obtain ⟨y, rfl, _, rfl⟩ := exists_of_write_float h
    cases hx
    exact .self
  | reference classId =>
    obtain ⟨id, _, _, _, rfl⟩ := exists_of_write_reference h
    exact absurd hx (not_holds_identity id)
  | optional inner ih =>
    by_cases hv : v = .null
    · subst hv
      cases h
      cases hx
    · rw [write_optional hv] at h
      exact ih hx p h
  | union alternatives ih =>
    obtain ⟨⟨s, hs, hw⟩, _⟩ := exists_of_write_union h
    exact ih s hs hx p hw
  | list element ih =>
    obtain ⟨items, js, rfl, rfl, hjs⟩ := exists_of_write_list h
    cases hx with
    | item hj hx =>
      obtain ⟨v, hv, q, hw⟩ := exists_of_mem_right hjs hj
      exact .list hv (ih hx q hw)
  | set element ih =>
    obtain ⟨items, js, rfl, rfl, hjs⟩ := exists_of_write_set h
    cases hx with
    | item hj hx =>
      obtain ⟨v, hv, q, hw⟩ := exists_of_mem_right hjs hj
      exact .set (Ordered.mem_of_mem_distinct hv) (ih hx q hw)
  | tuple elements ih =>
    obtain ⟨items, js, rfl, rfl, hjs⟩ := exists_of_write_tuple h
    cases hx with
    | item hj hx =>
      obtain ⟨s, hs, v, hv, q, hw⟩ := hjs.exists_right hj
      exact .tuple hv (ih s hs hx q hw)
  | map key value ihk ihv =>
    obtain ⟨entries, rfl, ⟨members, rfl, _, hms⟩ | ⟨pairs, rfl, _, hps⟩⟩ :=
      exists_of_write_map h
    · cases hx with
      | member hm hx =>
        obtain ⟨m, hm, hv⟩ := Entries.exists_mem_of_mem_ofList hm
        obtain ⟨e, he, _, q, hw⟩ := exists_of_mem_right hms hm
        exact .value he (ihv (hv ▸ hx) q hw)
    · cases hx with
      | item hj hx =>
        obtain ⟨e, he, k, v, rfl, ⟨q, hk⟩, r, hv⟩ := exists_of_mem_right hps hj
        cases hx with
        | item hj hx =>
          simp only [List.mem_cons, List.not_mem_nil, or_false] at hj
          rcases hj with rfl | rfl
          · exact .key he (ihk hx q hk)
          · exact .value he (ihv hx r hv)
  | record name declared ih =>
    obtain ⟨members, es, rfl, rfl, _, hes⟩ := exists_of_write_record h
    cases hx with
    | member hm hx =>
      obtain ⟨m, hm, hv⟩ := Entries.exists_mem_of_mem_ofList hm
      obtain ⟨d, hd, _, v, hlookup, q, hw⟩ := hes.exists_of_mem hm
      exact .member (Entries.mem_of_lookup hlookup) (ih d hd (hv ▸ hx) q hw)

/-! ## Reading -/

/-- Where a number that is read for a shape comes from. -/
def Origin (x : Binary64) (s : Shape) (j : Json) : Prop :=
  j.Holds x ∨ (∃ n, x = .ofInt n) ∨ Supplies x s

theorem Origin.imp {s t : Shape} {j k : Json} (h : Origin x s j) (hj : j.Holds x → k.Holds x)
    (hs : Supplies x s → Supplies x t) : Origin x t k :=
  Or.imp hj (Or.imp_right hs) h

mutual

theorem origin_of_plainOfJson {j : Json} (h : Value.Within (.float x) (plainOfJson j)) :
    j.Holds x ∨ ∃ n, x = .ofInt n := by
  cases j with
  | null | bool | str => cases h
  | int n =>
    rw [plainOfJson] at h
    split at h
    · cases h
    · cases h
      exact .inr ⟨n, rfl⟩
  | float y =>
    cases h
    exact .inl .self
  | arr items =>
    cases h with
    | list hv hx =>
      obtain ⟨j, hj, ho⟩ := origin_of_plainItems hv hx
      exact ho.imp_left (.item hj)
  | obj members =>
    cases h with
    | member hm hx =>
      obtain ⟨m, hm, hv⟩ := Entries.exists_mem_of_mem_ofList hm
      obtain ⟨n, hn, ho⟩ := origin_of_plainMembers hm (hv ▸ hx)
      exact ho.imp_left (.member hn)
  termination_by structural j

theorem origin_of_plainItems {js : List Json} {v : Value} (hv : v ∈ plainItems js)
    (h : Value.Within (.float x) v) : ∃ j ∈ js, j.Holds x ∨ ∃ n, x = .ofInt n := by
  cases js with
  | nil => cases hv
  | cons j js =>
    rcases List.mem_cons.1 hv with rfl | hv
    · exact ⟨j, List.mem_cons_self, origin_of_plainOfJson h⟩
    · obtain ⟨k, hk, ho⟩ := origin_of_plainItems hv h
      exact ⟨k, List.mem_cons_of_mem _ hk, ho⟩
  termination_by structural js

theorem origin_of_plainMembers {ms : List (String × Json)} {m : String × Value}
    (hm : m ∈ plainMembers ms) (h : Value.Within (.float x) m.2) :
    ∃ n ∈ ms, n.2.Holds x ∨ ∃ n, x = .ofInt n := by
  cases ms with
  | nil => cases hm
  | cons n ms =>
    obtain ⟨name, j⟩ := n
    rcases List.mem_cons.1 hm with rfl | hm
    · exact ⟨(name, j), List.mem_cons_self, origin_of_plainOfJson h⟩
    · obtain ⟨k, hk, ho⟩ := origin_of_plainMembers hm h
      exact ⟨k, List.mem_cons_of_mem _ hk, ho⟩
  termination_by structural ms

end

theorem origin_of_ifAbsent? {name : String} {declared : List (Member Shape)} {d : Member Shape}
    (hd : d ∈ declared) {v : Value} (hv : d.ifAbsent? = some v)
    (hx : Value.Within (.float x) v) : Supplies x (record name declared) := by
  rcases ifAbsent?_cases hv with hdefault | ⟨_, rfl⟩
  · exact .default hd hdefault hx
  · cases hx

theorem origin_of_read {s : Shape} {j : Json} {v : Value} (h : Somewhere read s j v)
    (hx : Value.Within (.float x) v) : Origin x s j := by
  obtain ⟨p, h⟩ := h
  induction s generalizing p v j with
  | int =>
    obtain ⟨_, _, _, _, rfl⟩ := readInt_eq_ok.1 h
    cases hx
  | float =>
    unfold read readFloat at h
    split at h
    case h_1 n =>
      split at h
      · cases h
      · cases h
        cases hx
        exact .inr (.inl ⟨n, rfl⟩)
    case h_2 y =>
      cases h
      cases hx
      exact .inl .self
    case h_3 => cases h
  | bool =>
    cases j <;> cases h
    cases hx
  | str =>
    obtain ⟨_, _, rfl⟩ := map_eq_ok.1 h
    cases hx
  | bytes =>
    obtain ⟨_, _, h⟩ := bind_eq_ok.1 h
    obtain ⟨_, _, rfl⟩ := bytesOfText_eq_ok.1 h
    cases hx
  | instant =>
    obtain ⟨_, _, h⟩ := bind_eq_ok.1 h
    obtain ⟨_, _, rfl⟩ := instantOfText_eq_ok.1 h
    cases hx
  | uuid =>
    obtain ⟨_, _, h⟩ := bind_eq_ok.1 h
    obtain ⟨_, _, rfl⟩ := uuidOfText_eq_ok.1 h
    cases hx
  | choice name variants =>
    obtain ⟨_, _, h⟩ := bind_eq_ok.1 h
    obtain ⟨_, rfl⟩ := choiceOfText_eq_ok.1 h
    cases hx
  | reference classId =>
    obtain ⟨_, _, _, rfl, _⟩ := readReference_eq_ok.1 h
    cases hx
  | any =>
    cases h
    exact (origin_of_plainOfJson hx).imp_right .inl
  | optional inner ih =>
    by_cases hj : j = .null
    · subst hj
      cases h
      cases hx
    · rw [read_optional hj] at h
      exact (ih hx p h).imp id .optional
  | union alternatives ih =>
    obtain ⟨s, hs, hr⟩ := exists_of_readFirst (mapError_eq_ok.1 h)
    exact (ih s hs hx p hr).imp id (.union hs)
  | list element ih =>
    obtain ⟨js, vs, rfl, rfl, hvs⟩ := exists_of_read_list h
    cases hx with
    | list hv hx =>
      obtain ⟨j, hj, q, hr⟩ := exists_of_mem_right hvs hv
      exact (ih hx q hr).imp (.item hj) .list
  | set element ih =>
    obtain ⟨js, vs, rfl, rfl, hvs⟩ := exists_of_read_set h
    cases hx with
    | set hv hx =>
      obtain ⟨j, hj, q, hr⟩ := exists_of_mem_right hvs (Ordered.mem_of_mem_distinct hv)
      exact (ih hx q hr).imp (.item hj) .set
  | tuple elements ih =>
    obtain ⟨js, vs, rfl, rfl, hvs⟩ := exists_of_read_tuple h
    cases hx with
    | tuple hv hx =>
      obtain ⟨s, hs, j, hj, q, hr⟩ := hvs.exists_right hv
      exact (ih s hs hx q hr).imp (.item hj) (.tuple hs)
  | map key value ihk ihv =>
    obtain ⟨entries, hc, hrs⟩ := exists_of_read_map h
    obtain ⟨sorted, rfl, hperm, _⟩ := canonicalEntries_eq_ok.1 hc
    rcases hrs with ⟨members, rfl, _, hms⟩ | ⟨pairs, rfl, hps⟩
    · cases hx with
      | key he hx =>
        obtain ⟨m, hm, ⟨q, hk⟩, _⟩ := exists_of_mem_right hms (hperm.mem_iff.1 he)
        -- a name of a member is text, so no number is in it
        refine (ihk hx q hk).imp (fun hname => ?_) .key
        cases hname
      | value he hx =>
        obtain ⟨m, hm, _, q, hv⟩ := exists_of_mem_right hms (hperm.mem_iff.1 he)
        exact (ihv hx q hv).imp (.member hm) .value
    · cases hx with
      | key he hx =>
        obtain ⟨j, hj, k, v, rfl, ⟨q, hk⟩, _⟩ := exists_of_mem_right hps (hperm.mem_iff.1 he)
        exact (ihk hx q hk).imp (fun hk => .item hj (.item List.mem_cons_self hk)) .key
      | value he hx =>
        obtain ⟨j, hj, k, v, rfl, _, q, hv⟩ := exists_of_mem_right hps (hperm.mem_iff.1 he)
        refine (ihv hx q hv).imp (fun hv => .item hj (.item ?_ hv)) .value
        exact List.mem_cons_of_mem _ List.mem_cons_self
  | record name declared ih =>
    obtain ⟨members, rs, rfl, rfl, hrs⟩ := exists_of_read_record h
    cases hx with
    | member hm hx =>
      obtain ⟨m, hm, hv⟩ := Entries.exists_mem_of_mem_ofList hm
      obtain ⟨d, hd, _, hfilled⟩ := exists_of_mem_right hrs hm
      rw [← hv] at hx
      cases hl : Entries.lookup d.name members with
      | some j =>
        rw [hl] at hfilled
        obtain ⟨q, hr⟩ := hfilled
        exact (ih d hd hx q hr).imp (.member (Entries.mem_of_lookup hl)) (.member hd)
      | none =>
        rw [hl] at hfilled
        exact .inr (.inr (origin_of_ifAbsent? hd hfilled hx))

end Shape
end ObjectSpace
