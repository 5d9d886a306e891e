import ObjectSpace.Proofs.Codec.Reading
import ObjectSpace.Proofs.Codec.Writing
import ObjectSpace.Proofs.Text.Integer
import ObjectSpace.Proofs.Value.Same

/-!
# Untyped data reads back

Plain data whose records are in order is written as a document that reads as the very same data.
-/

namespace ObjectSpace
namespace Shape

open Success

theorem isFinite_of_isPlain {v : Value} (h : v.isPlain = true) : v.IsFinite := by
  intro x hx
  induction hx with
  | self => exact h
  | list hv _ ih => exact ih (allPlain_iff.1 h _ hv)
  | member hm _ ih => exact ih (membersPlain_iff.1 h _ hm)
  | set | tuple | key | value => cases h

theorem Canonical.isFinite {s : Shape} {v : Value} (h : Canonical s v) : v.IsFinite := by
  induction h with
  | int | bool | str | bytes | instant | uuid | null | reference | choice =>
    intro x hx
    cases hx
  | float hf =>
    intro x hx
    cases hx
    exact hf
  | optional _ ih => exact ih
  | union _ _ ih => exact ih
  | list _ ih =>
    intro x hx
    cases hx with
    | list hv hx => exact ih _ hv x hx
  | set _ _ ih =>
    intro x hx
    cases hx with
    | set hv hx => exact ih _ hv x hx
  | map _ _ _ ihk ihv =>
    intro x hx
    cases hx with
    | key he hx => exact ihk _ he x hx
    | value he hx => exact ihv _ he x hx
  | @tuple elements items hl _ ih =>
    intro x hx
    cases hx with
    | tuple hv hx =>
      obtain ⟨s, hz⟩ := exists_mem_zip hl hv
      exact ih _ hz x hx
  | record ho hn _ ih =>
    intro x hx
    cases hx with
    | member hm hx =>
      obtain ⟨d, hd, _, hlookup⟩ := exists_declared_of_mem ho hn hm
      exact ih d hd _ hlookup x hx
  | any hp _ => exact isFinite_of_isPlain hp

/-! ## Documents of plain data -/

theorem names_of_plainMember {R : Shape → Value → Json → Prop} {ms : List (String × Value)}
    {es : List (String × Json)} (h : List.Forall₂ (PlainMember R) ms es) :
    es.map Prod.fst = ms.map Prod.fst := by
  induction h with
  | nil => rfl
  | cons hm _ ih => rw [List.map_cons, List.map_cons, hm.1, ih]

theorem plainItems_of_forall₂ {vs : List Value} {js : List Json}
    (h : List.Forall₂ (fun v j => plainOfJson j = v) vs js) : plainItems js = vs := by
  induction h with
  | nil => rfl
  | cons hj _ ih => rw [plainItems, hj, ih]

theorem plainMembers_of_forall₂ {ms : List (String × Value)} {es : List (String × Json)}
    (h : List.Forall₂ (fun m e => e.1 = m.1 ∧ plainOfJson e.2 = m.2) ms es) :
    plainMembers es = ms := by
  induction h with
  | nil => rfl
  | cons he _ ih => rw [plainMembers, he.1, he.2, ih]

theorem plainOfJson_of_writePlain {v : Value} {j : Json} (hp : v.isPlain = true)
    (ho : v.IsOrdered) (h : Somewhere write any v j) : plainOfJson j = v := by
  obtain ⟨p, h⟩ := h
  induction v generalizing p j with
  | null | bool | str =>
    cases h
    rfl
  | int n =>
    cases h
    rw [plainOfJson, int64?_toInt]
  | float x =>
    obtain ⟨_, rfl⟩ := writeFloat_eq_ok.1 h
    rfl
  | list items ih =>
    obtain ⟨js, hjs, rfl⟩ := map_eq_ok.1 h
    rw [plainOfJson, plainItems_of_forall₂ (forall₂_imp (forall₂_of_plainArray hjs) ?_)]
    rintro v hv j ⟨q, hj⟩
    exact ih v hv (allPlain_iff.1 hp v hv) (fun x hx => ho x (.list hv hx)) q hj
  | record members ih =>
    obtain ⟨es, hes, rfl⟩ := map_eq_ok.1 h
    have hwritten := forall₂_of_plainObject hes
    have hmembers : Entries.Increasing members := ho _ .self
    have hincreasing : Entries.Increasing es :=
      Entries.increasing_of_keys (names_of_plainMember hwritten) hmembers
    have hread : plainMembers es = members := by
      refine plainMembers_of_forall₂ (forall₂_imp hwritten ?_)
      rintro m hm e ⟨hname, q, hj⟩
      exact ⟨hname,
        ih m hm (membersPlain_iff.1 hp m hm) (fun x hx => ho x (.member hm hx)) q hj⟩
    rw [Json.object, Entries.ofList_of_perm (.refl es) hincreasing, plainOfJson, hread,
      Value.ofMembers, Entries.ofList_of_perm (.refl members) hmembers]
  | bytes | instant | uuid | ref | set | tuple | map => cases hp

end Shape
end ObjectSpace
