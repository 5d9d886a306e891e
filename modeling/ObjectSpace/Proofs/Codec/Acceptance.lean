import ObjectSpace.Proofs.Codec.Writable

/-!
# Writing and accepting agree

Whether a value has a shape and whether it can be written for it are two recursions over the shape.
Where no untyped data is asked for, what is written has the shape, and no reference that is written
is invalid. For shapes without unions this is all that is needed: writing then accepts the values
that `accepts` accepts, but for those with an invalid reference.
-/

namespace ObjectSpace
namespace Shape

open Success

/-! ## References -/

theorem not_within_of_writePlain {v : Value} {j : Json} (h : Somewhere write any v j)
    {id : Identity} : ¬ Value.Within (.ref id) v := by
  obtain ⟨p, h⟩ := h
  intro hid
  induction v generalizing p j with
  | null | bool | int | float | str => cases hid
  | bytes | instant | uuid | ref => cases h
  | list items ih | set items ih | tuple items ih =>
    obtain ⟨js, hjs, rfl⟩ := map_eq_ok.1 h
    obtain ⟨v, hmem, hid⟩ : ∃ v ∈ items, Value.Within (.ref id) v := by
      cases hid
      exact ⟨_, by assumption, by assumption⟩
    obtain ⟨_, _, q, hw⟩ := exists_of_mem_left (forall₂_of_plainArray hjs) hmem
    exact ih v hmem q hw hid
  | record members ih =>
    obtain ⟨es, hes, rfl⟩ := map_eq_ok.1 h
    cases hid with
    | member hmem hid =>
      obtain ⟨_, _, _, q, hw⟩ := exists_of_mem_left (forall₂_of_plainObject hes) hmem
      exact ih _ hmem q hw hid
  | map entries ih =>
    obtain ⟨ms, hms, rfl⟩ := map_eq_ok.1 h
    cases hid with
    | @key e _ hmem hid =>
      obtain ⟨_, _, hname, _⟩ := exists_of_mem_left (forall₂_of_plainEntries hms) hmem
      rw [hname] at hid
      cases hid
    | value hmem hid =>
      obtain ⟨_, _, _, q, hw⟩ := exists_of_mem_left (forall₂_of_plainEntries hms) hmem
      exact (ih _ hmem).2 q hw hid

/-- All references in a value that is written are valid. -/
theorem valid_of_write {s : Shape} {v : Value} {j : Json} (hv : v.WellFormed)
    (h : Somewhere write s v j) {id : Identity} (hid : Value.Within (.ref id) v) :
    id.validate = .ok () := by
  obtain ⟨p, h⟩ := h
  induction s generalizing v p j with
  | int | bool | str | bytes | instant | uuid => cases v <;> cases h; cases hid
  | float =>
    obtain ⟨_, rfl, _⟩ := exists_of_write_float h
    cases hid
  | choice name variants =>
    obtain ⟨_, _, rfl, _⟩ := exists_of_write_choice h
    cases hid
  | reference classId =>
    obtain ⟨_, rfl, _, hvalid, _⟩ := exists_of_write_reference h
    cases hid
    exact hvalid
  | any => exact absurd hid (not_within_of_writePlain ⟨p, h⟩)
  | optional inner ih =>
    by_cases hnull : v = .null
    · subst hnull
      cases hid
    · rw [write_optional hnull] at h
      exact ih hv hid p h
  | union alternatives ih =>
    obtain ⟨⟨s, hs, hw⟩, _⟩ := exists_of_write_union h
    exact ih s hs hv hid p hw
  | list element ih =>
    obtain ⟨items, js, rfl, rfl, hjs⟩ := exists_of_write_list h
    cases hid with
    | list hmem hid =>
      obtain ⟨_, _, q, hw⟩ := exists_of_mem_left hjs hmem
      exact ih (fun ms hm => hv ms (.list hmem hm)) hid q hw
  | set element ih =>
    obtain ⟨items, js, rfl, rfl, hjs⟩ := exists_of_write_set h
    cases hid with
    | set hmem hid =>
      obtain ⟨_, _, q, hw⟩ := exists_of_mem_left hjs (Ordered.mem_distinct.2 hmem)
      exact ih (fun ms hm => hv ms (.set hmem hm)) hid q hw
  | tuple elements ih =>
    obtain ⟨items, js, rfl, rfl, hjs⟩ := exists_of_write_tuple h
    cases hid with
    | tuple hmem hid =>
      obtain ⟨s, hz⟩ := exists_mem_zip hjs.length_eq.symm hmem
      obtain ⟨_, q, hw⟩ := hjs.of_mem_zip hz
      exact ih s (List.of_mem_zip hz).1 (fun ms hm => hv ms (.tuple hmem hm)) hid q hw
  | map key value ihk ihv =>
    obtain ⟨entries, rfl, _⟩ := exists_of_write_map h
    cases hid with
    | key he hid =>
      obtain ⟨⟨_, q, hk⟩, _⟩ := exists_of_write_entry h he
      exact ihk (fun ms hm => hv ms (.key he hm)) hid q hk
    | value he hid =>
      obtain ⟨_, _, q, hw⟩ := exists_of_write_entry h he
      exact ihv (fun ms hm => hv ms (.value he hm)) hid q hw
  | record name declared ih =>
    obtain ⟨members, es, rfl, rfl, hnames, hes⟩ := exists_of_write_record h
    cases hid with
    | @member m _ hmem hid =>
      have hnodup : (members.map Prod.fst).Nodup :=
        Entries.nodup_keys_of_increasing (hv members .self)
      obtain ⟨d, hd, hname⟩ := List.mem_map.1 (undeclared?_eq_none.1 hnames m hmem)
      have hlookup : Entries.lookup d.name members = some m.2 :=
        hname ▸ Entries.lookup_of_mem hnodup hmem
      obtain ⟨_, q, hw⟩ := hes.exists_of_lookup hd hlookup
      exact ih d hd (fun ms hm => hv ms (.member hmem hm)) hid q hw

/-! ## What is written has the shape -/

theorem accepts_of_write {s : Shape} (hs : ¬ Part any s) {v : Value} {j : Json}
    (h : Somewhere write s v j) : s.accepts v = true := by
  obtain ⟨p, h⟩ := h
  induction s generalizing v p j with
  | int | bool | str | bytes | instant | uuid => cases v <;> first | rfl | cases h
  | float =>
    obtain ⟨_, rfl, hx, _⟩ := exists_of_write_float h
    exact hx
  | choice name variants =>
    obtain ⟨_, htext, rfl, _⟩ := exists_of_write_choice h
    exact List.contains_iff_mem.2 htext
  | reference classId =>
    obtain ⟨_, rfl, rfl, _⟩ := exists_of_write_reference h
    exact beq_self_eq_true _
  | any => exact absurd .self hs
  | optional inner ih =>
    by_cases hnull : v = .null
    · subst hnull
      rfl
    · rw [write_optional hnull] at h
      rw [accepts, ih (fun hp => hs (.optional hp)) p h, Bool.or_true]
  | union alternatives =>
    unfold write at h
    split at h
    case isTrue haccepts => exact haccepts
    case isFalse => cases h
  | list element ih =>
    obtain ⟨items, js, rfl, rfl, hjs⟩ := exists_of_write_list h
    refine List.all_eq_true.2 fun v hmem => ?_
    obtain ⟨_, _, q, hw⟩ := exists_of_mem_left hjs hmem
    exact ih (fun hp => hs (.list hp)) q hw
  | set element ih =>
    obtain ⟨items, js, rfl, rfl, hjs⟩ := exists_of_write_set h
    refine List.all_eq_true.2 fun v hmem => ?_
    obtain ⟨_, _, q, hw⟩ := exists_of_mem_left hjs (Ordered.mem_distinct.2 hmem)
    exact ih (fun hp => hs (.set hp)) q hw
  | tuple elements ih =>
    obtain ⟨items, js, rfl, rfl, hjs⟩ := exists_of_write_tuple h
    refine eachAccepts_iff.2 ⟨hjs.length_eq.symm, fun e hmem => ?_⟩
    have hpart := (List.of_mem_zip hmem).1
    obtain ⟨_, q, hw⟩ := hjs.of_mem_zip hmem
    exact ih e.1 hpart (fun hp => hs (.tuple hpart hp)) q hw
  | map key value ihk ihv =>
    have hkey : ¬ Part any key := fun hp => hs (.key hp)
    have hvalue : ¬ Part any value := fun hp => hs (.value hp)
    obtain ⟨entries, rfl, _⟩ := exists_of_write_map h
    refine List.all_eq_true.2 fun e he => Bool.and_eq_true_iff.2 ?_
    obtain ⟨⟨_, q, hk⟩, _, r, hw⟩ := exists_of_write_entry h he
    exact ⟨ihk hkey q hk, ihv hvalue r hw⟩
  | record name declared ih =>
    obtain ⟨members, es, rfl, rfl, hnames, hes⟩ := exists_of_write_record h
    rw [accepts, hnames, Option.isNone_none, Bool.true_and]
    refine membersAccept_iff.2 fun d hd => ?_
    cases hl : Entries.lookup d.name members with
    | some w =>
      obtain ⟨_, q, hw⟩ := hes.exists_of_lookup hd hl
      exact ih d hd (fun hp => hs (.member hd hp)) q hw
    | none =>
      obtain ⟨w, hw⟩ := hes.exists_ifAbsent hd hl
      exact Option.isNone_eq_false_iff.2 (Option.isSome_of_eq_some hw)

/-! ## Both directions -/

/-- Writing for a shape without unions and untyped data succeeds exactly on the values that have the
shape and hold valid references only. -/
theorem written_iff_accepts {s : Shape} (hu : s.UnionFree) (ha : ¬ Part any s) {v : Value}
    (hv : v.WellFormed) (path : String) :
    (∃ j, write path s v = .ok j) ↔
      s.accepts v = true ∧ ∀ id, Value.Within (.ref id) v → id.validate = .ok () := by
  constructor
  · rintro ⟨j, hj⟩
    exact ⟨accepts_of_write ha ⟨path, hj⟩, fun id hid => valid_of_write hv ⟨path, hj⟩ hid⟩
  · rintro ⟨haccepts, hvalid⟩
    have hclear : Unobstructed s v := .of_unionFree hu fun _ id hat => hvalid id hat.within
    obtain ⟨j, hj⟩ := writable_of_accepts haccepts hclear
    exact ⟨j, hj path⟩

/-- A set of people, with a note that may be left out. -/
def roster : Shape :=
  record "Roster" [⟨"people", set (reference "Person"), none⟩, ⟨"note", optional str, none⟩]

def people (ids : List Identity) : Value := .record [("people", .set (ids.map .ref))]

theorem part_roster {t : Shape} (h : Part t roster) :
    t = roster ∨ t = set (reference "Person") ∨ t = reference "Person" ∨ t = optional str ∨
      t = str := by
  cases h with
  | self => exact .inl rfl
  | member hm h =>
    simp only [List.mem_cons, List.not_mem_nil, or_false] at hm
    rcases hm with rfl | rfl
    · cases h with
      | self => simp
      | set h => cases h; simp
    · cases h with
      | self => simp
      | optional h => cases h; simp

theorem within_people {ids : List Identity} {x : Value} (h : Value.Within x (people ids)) :
    x = people ids ∨ x = .set (ids.map .ref) ∨ ∃ id ∈ ids, x = .ref id := by
  cases h with
  | self => exact .inl rfl
  | member hm h =>
    rw [List.mem_singleton.1 hm] at h
    cases h with
    | self => exact .inr (.inl rfl)
    | set hv h =>
      obtain ⟨id, hid, rfl⟩ := List.mem_map.1 hv
      cases h
      exact .inr (.inr ⟨id, hid, rfl⟩)

theorem wellFormed_people (ids : List Identity) : (people ids).WellFormed := by
  intro members h
  rcases within_people h with h | h | ⟨id, _, h⟩ <;> cases h
  exact List.pairwise_singleton _ _

/-- A set is written in any order, and with repetitions; a number beyond the signed range is not. -/
theorem written_iff_accepts_roster :
    (∃ j, write "" roster (people [⟨"Person", 0, 2⟩, ⟨"Person", 0, 1⟩, ⟨"Person", 0, 2⟩]) = .ok j) ∧
      ¬ ∃ j, write "" roster (people [⟨"Person", 0, 9223372036854775808⟩]) = .ok j := by
  have hiff := fun ids => written_iff_accepts (s := roster)
    (fun alternatives hp => by simpa [roster] using part_roster hp)
    (fun hp => by simpa [roster] using part_roster hp) (wellFormed_people ids) ""
  constructor
  · refine (hiff _).2 ⟨rfl, fun id hid => ?_⟩
    rcases within_people hid with h | h | ⟨id', hmem, h⟩ <;> cases h
    simp only [List.mem_cons, List.not_mem_nil, or_false] at hmem
    rcases hmem with rfl | rfl | rfl <;> rfl
  · intro h
    have hvalid := ((hiff _).1 h).2 ⟨"Person", 0, 9223372036854775808⟩
      (.member List.mem_cons_self (.set List.mem_cons_self .self))
    cases hvalid

end Shape
end ObjectSpace
