import ObjectSpace.Codec.Call
import ObjectSpace.Proofs.Class.Methods
import ObjectSpace.Proofs.Codec.Canonical
import ObjectSpace.Proofs.Codec.Envelope

/-!
# Arguments that have their shapes

A shape conforms if the members of each record in it have different names and defaults of their
shapes. What is read for such a shape has the shape, and so has each argument of a method without a
fault, whether it comes from the payload or is the default of its parameter.
-/

namespace ObjectSpace

open Success

namespace Shape

/-- What is asked of the members of a record, as it is of the parameters of a method. -/
structure ConformingMembers (declared : List (Member Shape)) : Prop where
  nodup : (declared.map Member.name).Nodup
  default : ∀ d ∈ declared, ∀ v, d.default = some v → d.shape.accepts v = true

def Conforming (s : Shape) : Prop :=
  ∀ name declared, Part (record name declared) s → ConformingMembers declared

theorem Conforming.of_int : Conforming int := fun _ _ hp => nomatch hp

theorem Conforming.of_record {name : String} {members : List (Member Shape)}
    (hm : ConformingMembers members) (h : ∀ m ∈ members, Conforming m.shape) :
    Conforming (record name members) := by
  intro name declared hp
  cases hp with
  | self => exact hm
  | member hm hp => exact h _ hm name declared hp

/-- What stands for a member that is left out has its shape. -/
theorem accepts_ifAbsent {d : Member Shape}
    (hd : ∀ v, d.default = some v → d.shape.accepts v = true) {v : Value}
    (hv : d.ifAbsent? = some v) : d.shape.accepts v = true := by
  rcases ifAbsent?_cases hv with hdefault | ⟨hn, rfl⟩
  · exact hd v hdefault
  · exact (canonical_null hn).accepts

theorem eachAccepts_of_each {α : Type} {elements : List Shape} {as : List α} {items : List Value}
    (h : Each (fun s _ v => s.accepts v = true) elements as items) :
    eachAccepts elements items = true := by
  induction h with
  | nil => rfl
  | cons hv _ ih => rw [eachAccepts, hv, ih, Bool.and_self]

theorem accepts_ofMembers {name : String} {declared : List (Member Shape)}
    {members : List (String × Value)} (hn : (declared.map Member.name).Nodup)
    (h : List.Forall₂ (fun d m => m.1 = d.name ∧ d.shape.accepts m.2 = true) declared members) :
    (record name declared).accepts (.ofMembers members) = true := by
  have hkeys := keys_ofList_of_forall₂ hn h
  rw [Value.ofMembers, accepts, undeclared?_of_perm hkeys, Option.isNone_none, Bool.true_and]
  refine membersAccept_iff.2 fun d hd => ?_
  obtain ⟨v, hv⟩ := exists_lookup_of_perm (Entries.increasing_ofList members) hkeys hd
  rw [hv]
  exact of_lookup_ofList (R := fun d v => d.shape.accepts v = true) hn h hd hv

/-- What is read from a document for a conforming shape has the shape. -/
theorem accepts_of_read {s : Shape} (hs : s.Conforming) {path : String} {j : Json} {r : Value}
    (hj : j.WellFormed) (h : read path s j = .ok r) : s.accepts r = true := by
  induction s generalizing path j r with
  | optional inner ih =>
    by_cases hnull : j = .null
    · subst hnull
      cases h
      rfl
    · rw [read_optional hnull] at h
      rw [accepts, ih (fun n ds hp => hs n ds (.optional hp)) hj h, Bool.or_true]
  | union alternatives ih =>
    obtain ⟨s, hmem, hr⟩ := exists_of_readFirst (mapError_eq_ok.1 h)
    refine anyAccepts_iff.2 ⟨s, hmem, ?_⟩
    exact ih s hmem (fun n ds hp => hs n ds (.union hmem hp)) hj hr
  | list element ih =>
    obtain ⟨js, vs, rfl, rfl, hvs⟩ := exists_of_read_list h
    refine List.all_eq_true.2 fun v hv => ?_
    obtain ⟨a, ha, _, hread⟩ := exists_of_mem_right hvs hv
    exact ih (fun n ds hp => hs n ds (.list hp)) (hj.items a ha) hread
  | set element ih =>
    obtain ⟨js, vs, rfl, rfl, hvs⟩ := exists_of_read_set h
    refine List.all_eq_true.2 fun v hv => ?_
    obtain ⟨a, ha, _, hread⟩ := exists_of_mem_right hvs (Ordered.mem_of_mem_distinct hv)
    exact ih (fun n ds hp => hs n ds (.set hp)) (hj.items a ha) hread
  | tuple elements ih =>
    obtain ⟨js, vs, rfl, rfl, hvs⟩ := exists_of_read_tuple h
    refine eachAccepts_of_each (hvs.imp fun s hmem a ha v hv => ?_)
    obtain ⟨_, hread⟩ := hv
    exact ih s hmem (fun n ds hp => hs n ds (.tuple hmem hp)) (hj.items a ha) hread
  | map key value ihk ihv =>
    have hkey : key.Conforming := fun n ds hp => hs n ds (.key hp)
    have hvalue : value.Conforming := fun n ds hp => hs n ds (.value hp)
    obtain ⟨entries, h, hes⟩ := exists_of_read_entries hj h
    obtain ⟨sorted, rfl, hperm, _⟩ := canonicalEntries_eq_ok.1 h
    refine List.all_eq_true.2 fun e he => Bool.and_eq_true_iff.2 ?_
    obtain ⟨⟨k, hk, _, hrk⟩, v, hv, _, hrv⟩ := hes e (hperm.mem_iff.1 he)
    exact ⟨ihk hkey hk hrk, ihv hvalue hv hrv⟩
  | record name declared ih =>
    obtain ⟨members, rs, rfl, rfl, hrs⟩ := exists_of_read_record h
    have hmembers : ConformingMembers declared := hs name declared .self
    refine accepts_ofMembers hmembers.nodup (forall₂_imp hrs fun d hd r hr => ?_)
    obtain ⟨hname, hr⟩ := hr
    refine ⟨hname, ?_⟩
    cases hl : Entries.lookup d.name members with
    | some a =>
      rw [hl] at hr
      obtain ⟨_, hread⟩ := hr
      have ha : a.WellFormed := hj.members _ (Entries.mem_of_lookup hl)
      exact ih d hd (fun n ds hp => hs n ds (.member hd hp)) ha hread
    | none =>
      rw [hl] at hr
      exact accepts_ifAbsent (hmembers.default d hd) hr
  | _ => exact (canonical_of_read (by rintro _ _ ⟨⟩) hj h).accepts

end Shape

namespace Param

/-- A parameter whose default has its shape, and whose shape conforms. -/
structure Conforming (p : Param) : Prop where
  default : p.defaultFits = true
  shape : p.shape.Conforming

theorem Conforming.absent {p : Param} (hp : p.Conforming) {v : Value} (h : p.absent = .ok v) :
    p.shape.accepts v = true := by
  refine Shape.accepts_ifAbsent (fun w hw => ?_) (Shape.absent_eq_ok.1 (mapError_eq_ok.1 h))
  have hdefault := hp.default
  rw [defaultFits, hw] at hdefault
  exact hdefault

theorem Conforming.decode {p : Param} (hp : p.Conforming) {payload : ByteArray} {v : Value}
    (h : p.decode payload = .ok v) : p.shape.accepts v = true := by
  unfold Param.decode Shape.decode at h
  split at h
  case isTrue => exact hp.absent h
  case isFalse =>
    obtain ⟨j, hj, h⟩ := bind_eq_ok.1 h
    have hwellFormed := Json.wellFormed_of_ofBytes? (Payload.document_eq_ok.1 hj)
    exact Shape.accepts_of_read hp.shape hwellFormed (mapError_eq_ok.1 h)

end Param

namespace Arguments

theorem accepts_of_readOne {p : Param} (hp : p.Conforming) {byPosition byName : Option Json}
    (hi : ∀ j ∈ byPosition, j.WellFormed) (hn : ∀ j ∈ byName, j.WellFormed) {v : Value}
    (h : readOne p byPosition byName = .ok v) : p.shape.accepts v = true := by
  unfold readOne at h
  split at h
  case h_1 => cases h
  case h_2 j => exact Shape.accepts_of_read hp.shape (hi j rfl) (mapError_eq_ok.1 h)
  case h_3 j => exact Shape.accepts_of_read hp.shape (hn j rfl) (mapError_eq_ok.1 h)
  case h_4 => exact hp.absent h

theorem accepts_of_readAll {named : List (String × Json)} (hn : ∀ n ∈ named, n.2.WellFormed)
    {ps : List Param} (hp : ∀ p ∈ ps, p.Conforming) {items : List Json}
    (hi : ∀ i ∈ items, i.WellFormed) {vs : List Value} (h : readAll named ps items = .ok vs) :
    List.Forall₂ (fun p v => p.shape.accepts v = true) ps vs := by
  induction ps generalizing items vs with
  | nil =>
    cases h
    exact .nil
  | cons p ps ih =>
    obtain ⟨v, hv, h⟩ := bind_eq_ok.1 h
    obtain ⟨vs', hvs, h⟩ := bind_eq_ok.1 h
    cases h
    obtain ⟨hp, hps⟩ := List.forall_mem_cons.1 hp
    refine .cons (accepts_of_readOne hp ?_ ?_ hv) (ih hps ?_ hvs)
    · intro j hj
      exact hi j (List.mem_of_mem_head? hj)
    · intro j hj
      exact hn _ (Entries.mem_of_lookup hj)
    · intro i hmem
      exact hi i (List.mem_of_mem_tail hmem)

theorem accepts_of_decode {ps : List Param} (hp : ∀ p ∈ ps, p.Conforming) {payload : ByteArray}
    {vs : List Value} (h : Arguments.decode ps payload = .ok vs) :
    List.Forall₂ (fun p v => p.shape.accepts v = true) ps vs := by
  obtain ⟨items, named, hcarries, h⟩ := decode_eq_ok.1 h
  obtain ⟨_, _, hread⟩ := allot_eq_ok.1 h
  obtain ⟨hi, hn⟩ := hcarries.wellFormed
  exact accepts_of_readAll hn hp hi hread

end Arguments

namespace Method

variable {m : Method}

theorem accepts_of_decodeCall (hm : m.fault? = none) (hs : ∀ p ∈ m.params, p.shape.Conforming)
    {payload : ByteArray} {vs : List Value} (h : m.decodeCall payload = .ok vs) :
    List.Forall₂ (fun p v => p.shape.accepts v = true) m.params vs := by
  have hp : ∀ p ∈ m.params, p.Conforming := fun p hmem =>
    ⟨defaultFits_of_fault? hm p hmem, hs p hmem⟩
  have hsingle : (m.shape = .single ∨ m.shape = .singleWithMeta) →
      List.Forall₂ (fun p v => p.shape.accepts v = true) m.params vs := by
    intro hshape
    obtain ⟨p, hps, hone⟩ := exists_single hm hshape
    have hdecode : (p.decode payload).map (fun v => [v]) = .ok vs := by
      unfold decodeCall at h
      rcases hshape with hshape | hshape <;> rw [hshape, hone] at h <;> exact h
    obtain ⟨v, hv, rfl⟩ := map_eq_ok.1 hdecode
    have hmem : p ∈ m.params := by rw [hps]; exact List.mem_singleton_self p
    rw [hps]
    exact .cons ((hp p hmem).decode hv) .nil
  cases hshape : m.shape with
  | noArguments =>
    rw [decodeCall, hshape] at h
    cases h
    rw [params_eq_nil hm hshape]
    exact .nil
  | single => exact hsingle (.inl hshape)
  | singleWithMeta => exact hsingle (.inr hshape)
  | variadic =>
    rw [decodeCall, hshape] at h
    exact Arguments.accepts_of_decode hp h

end Method
end ObjectSpace
