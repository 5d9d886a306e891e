import ObjectSpace.Codec.Call
import ObjectSpace.Proofs.Codec.Envelope
import ObjectSpace.Proofs.Codec.Payload
import ObjectSpace.Proofs.Table

/-!
# Arguments read back

Caller and callee go by the same parameters. What the caller supplies for a parameter, by position
or by name, is what the callee gets for it, coerced; a parameter for which nothing is supplied gets
its default, or null.
-/

namespace ObjectSpace

open Success

namespace Param

/-- What the parameter gets for what is supplied for it, if anything is. -/
def Gets (p : Param) : Option Value → Value → Prop
  | some a, v => ∃ c, p.shape.coerce p.name a = .ok c ∧ v.same c = true
  | none, v => p.ifAbsent? = some v

/-- The argument can be sent for the parameter, as far as it conforms to it. -/
structure Sendable (outer : Nat) (p : Param) (a : Value) : Prop where
  proper : p.shape.Proper
  portable : ∀ c, p.shape.coerce p.name a = .ok c → p.shape.Portable outer c

theorem absent_eq_ok {p : Param} {v : Value} : p.absent = .ok v ↔ p.ifAbsent? = some v := by
  rw [absent, mapError_eq_ok, Shape.absent_eq_ok]

/-- The only argument of a call; null is no argument for a parameter that cannot be null. -/
def given (p : Param) (a : Value) : Option Value :=
  if a.isNull && !p.shape.isNullable then none else some a

theorem gets_of_encode {p : Param} {a : Value} {payload : ByteArray}
    (ha : ∀ b ∈ p.given a, p.Sendable 0 b) (h : p.encode a = .ok payload) :
    ∃ v, p.decode payload = .ok v ∧ p.Gets (p.given a) v := by
  unfold encode at h
  unfold given at ha ⊢
  split at h
  case isTrue hnull =>
    rw [if_pos hnull]
    split at h
    case h_1 v hdefault =>
      cases h
      have habsent : p.ifAbsent? = some v := by
        rw [Member.ifAbsent?, hdefault]
      have hblank : Payload.isBlank .empty = true := Array.all_empty
      refine ⟨v, ?_, habsent⟩
      rw [decode, if_pos hblank]
      exact absent_eq_ok.2 habsent
    case h_2 => cases h
  case isFalse hnull =>
    rw [if_neg hnull] at ha ⊢
    have ha := ha a rfl
    obtain ⟨c, hc, hencode⟩ := bind_eq_ok.1 h
    have hc := mapError_eq_ok.1 hc
    obtain ⟨hblank, hdecode⟩ := Shape.decode_of_encode
      (Shape.canonical_of_coerce ha.proper hc) (ha.portable c hc) hencode
    obtain ⟨v, hv, hsame⟩ := hdecode p.name
    refine ⟨v, ?_, c, hc, hsame⟩
    rw [decode, hblank, if_neg (by decide)]
    exact hv

end Param

namespace Arguments

/-- The documents that are written for arguments read as these arguments. -/
theorem gets_of_writeOne {p : Param} {a : Value} {j : Json} {outer : Nat}
    (ha : p.Sendable outer a) (h : writeOne p a = .ok j) :
    (∃ v, (p.shape.read p.name j).mapError CodecError.mismatch = .ok v ∧ p.Gets (some a) v) ∧
      j.Printable ∧ j.depth + outer ≤ Json.Raw.maxDepth := by
  obtain ⟨c, hc, hj⟩ := bind_eq_ok.1 h
  have hc := mapError_eq_ok.1 hc
  have hportable := ha.portable c hc
  obtain ⟨v, hread, hsame⟩ :=
    hportable.roundTrips (Shape.canonical_of_coerce ha.proper hc) j ⟨_, hj⟩
  exact ⟨⟨v, mapError_eq_ok.2 (hread p.name), c, hc, hsame⟩, Shape.printable_of_write ⟨_, hj⟩,
    hportable.depth j ⟨_, hj⟩⟩

/-- Each parameter is read by itself. -/
theorem readAll_eq_ok {named : List (String × Json)} {ps : List Param} {items : List Json}
    {P : Nat → Param → Value → Prop}
    (h : ∀ i p, ps[i]? = some p →
      ∃ v, readOne p items[i]? (Entries.lookup p.name named) = .ok v ∧ P i p v) :
    ∃ vs, readAll named ps items = .ok vs ∧ vs.length = ps.length ∧
      ∀ i p, ps[i]? = some p → ∃ v, vs[i]? = some v ∧ P i p v := by
  induction ps generalizing items P with
  | nil => exact ⟨[], rfl, rfl, fun i p hp => by simp at hp⟩
  | cons p ps ih =>
    obtain ⟨v, hv, hP⟩ := h 0 p rfl
    have htail : ∀ i q, ps[i]? = some q →
        ∃ v, readOne q items.tail[i]? (Entries.lookup q.name named) = .ok v ∧ P (i + 1) q v := by
      intro i q hq
      rw [List.getElem?_tail]
      exact h (i + 1) q hq
    obtain ⟨vs, hvs, hlen, hPs⟩ := ih htail
    refine ⟨v :: vs, ?_, congrArg (· + 1) hlen, ?_⟩
    · rw [← List.head?_eq_getElem?] at hv
      exact bind_eq_ok.2 ⟨v, hv, bind_eq_ok.2 ⟨vs, hvs, rfl⟩⟩
    · intro i q hq
      cases i with
      | zero =>
        cases hq
        exact ⟨v, rfl, hP⟩
      | succ i => exact hPs i q hq

/-! ## Variadic calls -/

/-- What a caller supplies for the parameter at a position. -/
def supplied (positional : List Value) (named : Table String Value) (i : Nat) (p : Param) :
    Option Value :=
  positional[i]?.or (named.get? p.name)

/-- A named argument belongs to a parameter behind those that are taken. -/
theorem exists_of_writeNamed {params : List Param} {taken : Nat} {name : String} {a : Value}
    {m : String × Json} (h : writeNamed params taken name a = .ok m) :
    m.1 = name ∧ ∃ i p, taken ≤ i ∧ params[i]? = some p ∧ p.name = name ∧
      writeOne p a = .ok m.2 := by
  unfold writeNamed at h
  split at h
  · cases h
  case h_2 i hi =>
    split at h
    · cases h
    case isFalse htaken =>
      split at h
      case h_1 p hp =>
        obtain ⟨j, hj, rfl⟩ := map_eq_ok.1 h
        obtain ⟨hlt, hname, _⟩ := List.findIdx?_eq_some_iff_getElem.1 hi
        have hp' : params[i] = p := by
          rw [List.getElem?_eq_getElem hlt] at hp
          exact Option.some.inj hp
        exact ⟨rfl, i, p, Nat.le_of_not_lt htaken, hp, hp' ▸ eq_of_beq hname, hj⟩
      case h_2 => cases h

/-- What is written of a variadic call. -/
structure Written (params : List Param) (positional : List Value) (named : Table String Value)
    (items : List Json) (members : List (String × Json)) : Prop where
  length : positional.length ≤ params.length
  items : List.Forall₂ (fun (e : Param × Value) j => writeOne e.1 e.2 = .ok j)
    (params.zip positional) items
  members : List.Forall₂ (fun (e : String × Value) m =>
    writeNamed params positional.length e.1 e.2 = .ok m) named.entries members
  absent : ∀ p ∈ params.drop positional.length, named.get? p.name = none →
    ∃ v, p.ifAbsent? = some v

theorem written_of_encode {params : List Param} {positional : List Value}
    {named : Table String Value} {payload : ByteArray}
    (h : encode params positional named = .ok payload) : ∃ items members,
    Written params positional named items members ∧
      payload = (envelope items members).text.toUTF8 := by
  unfold encode at h
  split at h
  · cases h
  case isFalse hlength =>
    obtain ⟨items, hitems, h⟩ := bind_eq_ok.1 h
    obtain ⟨members, hmembers, h⟩ := bind_eq_ok.1 h
    obtain ⟨absent, habsent, h⟩ := bind_eq_ok.1 h
    cases h
    refine ⟨items, members, ⟨Nat.le_of_not_lt hlength, mapM_eq_ok.1 hitems,
      mapM_eq_ok.1 hmembers, ?_⟩, rfl⟩
    intro p hp hnone
    have hmem : p ∈ (params.drop positional.length).filter fun p => !named.contains p.name := by
      rw [List.mem_filter, Table.get?_eq_none_iff.1 hnone]
      exact ⟨hp, rfl⟩
    obtain ⟨v, _, hv⟩ := exists_of_mem_left (mapM_eq_ok.1 habsent) hmem
    exact ⟨v, Param.absent_eq_ok.1 hv⟩

theorem index_eq {params : List Param} (hn : (params.map Member.name).Nodup) {i k : Nat}
    {p q : Param} (hp : params[i]? = some p) (hq : params[k]? = some q) (h : q.name = p.name) :
    k = i := by
  have hk : k < params.length := (List.getElem?_eq_some_iff.1 hq).1
  refine (List.getElem?_inj (by rwa [List.length_map]) hn).1 ?_
  rw [List.getElem?_map, List.getElem?_map, hp, hq, Option.map_some, Option.map_some, h]

namespace Written

variable {params : List Param} {positional : List Value} {named : Table String Value}
  {items : List Json} {members : List (String × Json)}

theorem keys (h : Written params positional named items members) :
    members.map Prod.fst = named.entries.map Prod.fst := by
  have hmembers := h.members
  generalize named.entries = es at hmembers
  clear h
  induction hmembers with
  | nil => rfl
  | cons hm _ ih => rw [List.map_cons, List.map_cons, ih, (exists_of_writeNamed hm).1]

theorem increasing (h : Written params positional named items members) :
    Entries.Increasing members := Entries.increasing_of_keys h.keys named.increasing

theorem length_items (h : Written params positional named items members) :
    items.length = positional.length := by
  rw [← h.items.length_eq, List.length_zip, Nat.min_eq_right h.length]

/-- The document of an argument by position. -/
theorem item (h : Written params positional named items members) {i : Nat} {p : Param} {a : Value}
    (hp : params[i]? = some p) (ha : positional[i]? = some a) :
    ∃ j, items[i]? = some j ∧ writeOne p a = .ok j := by
  have hzip : (params.zip positional)[i]? = some (p, a) :=
    List.getElem?_zip_eq_some.2 ⟨hp, ha⟩
  exact exists_getElem? h.items hzip

/-- The document of an argument by name. -/
theorem member (h : Written params positional named items members)
    (hn : (params.map Member.name).Nodup) {i : Nat} {p : Param} {a : Value}
    (hp : params[i]? = some p) (ha : named.get? p.name = some a) :
    ∃ j, Entries.lookup p.name members = some j ∧ writeOne p a = .ok j := by
  obtain ⟨m, hm, hw⟩ := exists_of_mem_left h.members (Table.get?_eq_some_iff.1 ha)
  obtain ⟨hname, k, q, _, hq, hqname, hj⟩ := exists_of_writeNamed hw
  obtain rfl := index_eq hn hp hq hqname
  obtain rfl : q = p := Option.some.inj (hq.symm.trans hp)
  have hkey : (q.name, m.2) = m := Prod.ext hname.symm rfl
  refine ⟨m.2, Entries.lookup_of_mem (Entries.nodup_keys_of_increasing h.increasing) ?_, hj⟩
  rwa [hkey]

/-- A parameter that gets an argument by position gets none by name. -/
theorem lookup_taken (h : Written params positional named items members)
    (hn : (params.map Member.name).Nodup) {i : Nat} {p : Param} (hp : params[i]? = some p)
    (hi : i < positional.length) : Entries.lookup p.name members = none := by
  refine Entries.lookup_eq_none_of_forall fun m hm heq => ?_
  obtain ⟨e, _, he⟩ := exists_of_mem_right h.members hm
  obtain ⟨hname, k, q, hk, hq, hqname, _⟩ := exists_of_writeNamed he
  have hkeys := Std.LawfulEqCmp.eq_of_compare heq
  obtain rfl := index_eq hn hp hq (by rw [hqname, ← hname, hkeys])
  omega

theorem lookup_of_none (h : Written params positional named items members) {name : String}
    (hnone : named.get? name = none) : Entries.lookup name members = none := by
  refine Entries.lookup_eq_none_of_forall fun m hm heq => ?_
  have hkey : m.1 ∈ named.keys := by
    rw [Table.keys, ← h.keys]
    exact List.mem_map_of_mem hm
  rw [← Std.LawfulEqCmp.eq_of_compare heq, Table.mem_keys, Table.contains, hnone] at hkey
  cases hkey

/-- What is supplied can be sent, behind the two levels of the envelope. -/
def Sendable (params : List Param) (positional : List Value) (named : Table String Value) : Prop :=
  ∀ i p a, params[i]? = some p → supplied positional named i p = some a → p.Sendable 2 a

theorem printable_items (h : Written params positional named items members)
    (hs : Sendable params positional named) :
    ∀ j ∈ items, j.Printable ∧ j.depth ≤ Json.Raw.maxDepth - 2 := by
  intro j hj
  obtain ⟨e, he, hw⟩ := exists_of_mem_right h.items hj
  obtain ⟨i, hi⟩ := List.mem_iff_getElem?.1 he
  obtain ⟨hp, ha⟩ := List.getElem?_zip_eq_some.1 hi
  have hgiven : supplied positional named i e.1 = some e.2 := by
    rw [supplied, ha, Option.some_or]
  obtain ⟨_, hprintable, hdepth⟩ := gets_of_writeOne (hs i _ _ hp hgiven) hw
  exact ⟨hprintable, by omega⟩

theorem printable_members (h : Written params positional named items members)
    (hs : Sendable params positional named) :
    ∀ m ∈ members, m.2.Printable ∧ m.2.depth ≤ Json.Raw.maxDepth - 2 := by
  intro m hm
  obtain ⟨e, he, hw⟩ := exists_of_mem_right h.members hm
  obtain ⟨_, i, p, hi, hp, hname, hj⟩ := exists_of_writeNamed hw
  have hgiven : supplied positional named i p = some e.2 := by
    rw [supplied, List.getElem?_eq_none hi, Option.none_or, hname]
    exact Table.get?_eq_some_iff.2 he
  obtain ⟨_, hprintable, hdepth⟩ := gets_of_writeOne (hs i _ _ hp hgiven) hj
  exact ⟨hprintable, by omega⟩

/-- The documents for one parameter read as what was supplied for it. -/
theorem readOne (h : Written params positional named items members)
    (hn : (params.map Member.name).Nodup) (hs : Sendable params positional named) {i : Nat}
    {p : Param} (hp : params[i]? = some p) :
    ∃ v, Arguments.readOne p items[i]? (Entries.lookup p.name members) = .ok v ∧
      p.Gets (supplied positional named i p) v := by
  have hsend := hs i p
  unfold supplied at hsend ⊢
  cases ha : positional[i]? with
  | some a =>
    obtain ⟨j, hj, hw⟩ := h.item hp ha
    rw [hj, h.lookup_taken hn hp (List.getElem?_eq_some_iff.1 ha).1, Option.some_or]
    exact (gets_of_writeOne (hsend a hp (by rw [ha, Option.some_or])) hw).1
  | none =>
    have hi : positional.length ≤ i := List.getElem?_eq_none_iff.1 ha
    have hitem : items[i]? = none := List.getElem?_eq_none (h.length_items ▸ hi)
    rw [hitem, Option.none_or]
    cases hnamed : named.get? p.name with
    | some a =>
      obtain ⟨j, hj, hw⟩ := h.member hn hp hnamed
      rw [hj]
      exact (gets_of_writeOne (hsend a hp (by rw [ha, Option.none_or, hnamed])) hw).1
    | none =>
      have hmem : p ∈ params.drop positional.length := by
        refine List.mem_iff_getElem?.2 ⟨i - positional.length, ?_⟩
        rw [List.getElem?_drop, Nat.add_sub_cancel' hi, hp]
      obtain ⟨v, hv⟩ := h.absent p hmem hnamed
      rw [h.lookup_of_none hnamed]
      exact ⟨v, Param.absent_eq_ok.2 hv, hv⟩

theorem undeclared? (h : Written params positional named items members) :
    Shape.undeclared? params members = none := by
  refine Shape.undeclared?_eq_none.2 fun m hm => ?_
  obtain ⟨e, _, hw⟩ := exists_of_mem_right h.members hm
  obtain ⟨hname, i, p, _, hp, hpname, _⟩ := exists_of_writeNamed hw
  exact List.mem_map.2 ⟨p, List.mem_of_getElem? hp, hpname.trans hname.symm⟩

end Written

/-- The callee gets for each parameter what the caller supplied for it. -/
theorem gets_of_encode {params : List Param} {positional : List Value}
    {named : Table String Value} {payload : ByteArray} (hn : (params.map Member.name).Nodup)
    (hs : Written.Sendable params positional named)
    (h : encode params positional named = .ok payload) :
    ∃ vs, decode params payload = .ok vs ∧ vs.length = params.length ∧
      ∀ i p, params[i]? = some p →
        ∃ v, vs[i]? = some v ∧ Param.Gets p (supplied positional named i p) v := by
  obtain ⟨items, members, hw, rfl⟩ := written_of_encode h
  have hitems := hw.printable_items hs
  have hmembers := hw.printable_members hs
  have hdepth := depth_envelope_le (fun j hj => (hitems j hj).2) fun m hm => (hmembers m hm).2
  have hmax : Json.Raw.maxDepth - 2 + 2 = Json.Raw.maxDepth := rfl
  have hcarries := carries_envelope (fun j hj => (hitems j hj).1) (fun m hm => (hmembers m hm).1)
    (hmax ▸ hdepth)
  have hsorted : Entries.ofList members = members :=
    Entries.ofList_of_perm (List.Perm.refl _) hw.increasing
  rw [hsorted] at hcarries
  obtain ⟨vs, hvs, hall⟩ := readAll_eq_ok
    (P := fun i p v => p.Gets (supplied positional named i p) v) fun i p hp => hw.readOne hn hs hp
  have hlength : items.length ≤ params.length := hw.length_items ▸ hw.length
  have hallot : allot params items members = .ok vs :=
    allot_eq_ok.2 ⟨hlength, Shape.undeclared?_eq_none.1 hw.undeclared?, hvs⟩
  exact ⟨vs, decode_eq_ok.2 ⟨items, members, hcarries, hallot⟩, hall⟩

end Arguments
end ObjectSpace
