import ObjectSpace.Codec.Arguments
import ObjectSpace.Proofs.Json.Text
import ObjectSpace.Proofs.Shape.Canonical
import ObjectSpace.Proofs.Success

/-!
# Envelopes of arguments

A payload carries arguments by position and by name, none if it is blank, and else those under the
two keys of its envelope. A call is decoded from what its payload carries alone.
-/

namespace ObjectSpace

open Success

namespace Arguments

/-! ## What a payload carries -/

/-- The arguments by position that stand under their key, where null and nothing stand for none. -/
inductive Listed : Option Json → List Json → Prop
  | absent : Listed none []
  | null : Listed (some .null) []
  | items (items : List Json) : Listed (some (.arr items)) items

/-- The arguments by name, likewise. -/
inductive Named : Option Json → List (String × Json) → Prop
  | absent : Named none []
  | null : Named (some .null) []
  | members (named : List (String × Json)) : Named (some (.obj named)) named

/-- A blank payload carries no arguments, and any other one carries those of its envelope. -/
inductive Carries (bytes : ByteArray) : List Json → List (String × Json) → Prop
  | blank (h : Payload.isBlank bytes = true) : Carries bytes [] []
  | envelope {members : List (String × Json)} {items : List Json} {named : List (String × Json)}
      (h : Payload.isBlank bytes = false) (hj : Json.ofBytes? bytes = some (.obj members))
      (hkeys : ∀ m ∈ members, m.1 = positionalKey ∨ m.1 = namedKey)
      (hitems : Listed (Entries.lookup positionalKey members) items)
      (hnamed : Named (Entries.lookup namedKey members) named) : Carries bytes items named

theorem Listed.unique {j? : Option Json} {items items' : List Json} (h : Listed j? items)
    (h' : Listed j? items') : items = items' := by
  cases h <;> cases h' <;> rfl

theorem Named.unique {j? : Option Json} {named named' : List (String × Json)} (h : Named j? named)
    (h' : Named j? named') : named = named' := by
  cases h <;> cases h' <;> rfl

theorem Listed.mem {key : String} {members : List (String × Json)} {items : List Json}
    (h : Listed (Entries.lookup key members) items) :
    items = [] ∨ (key, .arr items) ∈ members := by
  generalize hl : Entries.lookup key members = j? at h
  cases h with
  | absent => exact .inl rfl
  | null => exact .inl rfl
  | items => exact .inr (Entries.mem_of_lookup hl)

theorem Named.mem {key : String} {members named : List (String × Json)}
    (h : Named (Entries.lookup key members) named) :
    named = [] ∨ (key, .obj named) ∈ members := by
  generalize hl : Entries.lookup key members = j? at h
  cases h with
  | absent => exact .inl rfl
  | null => exact .inl rfl
  | members => exact .inr (Entries.mem_of_lookup hl)

/-- No two arguments have one name. -/
theorem Carries.nodup {bytes : ByteArray} {items : List Json} {named : List (String × Json)}
    (h : Carries bytes items named) : (named.map Prod.fst).Nodup := by
  cases h with
  | blank => exact List.nodup_nil
  | envelope _ hj _ _ hnamed =>
    rcases hnamed.mem with rfl | hmem
    · exact List.nodup_nil
    · exact Entries.nodup_keys_of_increasing (Json.increasing_of_ofBytes? hj hmem)

/-- The arguments are documents themselves. -/
theorem Carries.wellFormed {bytes : ByteArray} {items : List Json}
    {named : List (String × Json)} (h : Carries bytes items named) :
    (∀ j ∈ items, j.WellFormed) ∧ ∀ m ∈ named, m.2.WellFormed := by
  cases h with
  | blank => simp
  | envelope _ hj _ hitems hnamed =>
    have hmembers := (Json.wellFormed_of_ofBytes? hj).members
    constructor
    · rcases hitems.mem with rfl | hmem
      · simp
      · exact (hmembers _ hmem).items
    · rcases hnamed.mem with rfl | hmem
      · simp
      · exact (hmembers _ hmem).members

theorem Carries.unique {bytes : ByteArray} {items items' : List Json}
    {named named' : List (String × Json)} (h : Carries bytes items named)
    (h' : Carries bytes items' named') : items = items' ∧ named = named' := by
  cases h with
  | blank hb =>
    cases h' with
    | blank => exact ⟨rfl, rfl⟩
    | envelope hb' =>
      rw [hb] at hb'
      cases hb'
  | envelope hb hj _ hitems hnamed =>
    cases h' with
    | blank hb' =>
      rw [hb] at hb'
      cases hb'
    | envelope _ hj' _ hitems' hnamed' =>
      rw [hj] at hj'
      cases hj'
      exact ⟨hitems.unique hitems', hnamed.unique hnamed'⟩

theorem find?_strange_eq_none {members : List (String × Json)} :
    members.find? (fun (k, _) => k != positionalKey && k != namedKey) = none ↔
      ∀ m ∈ members, m.1 = positionalKey ∨ m.1 = namedKey := by
  simp [List.find?_eq_none, or_iff_not_imp_left]

theorem split_obj {members : List (String × Json)} {items : List Json}
    {named : List (String × Json)} (hitems : Listed (Entries.lookup positionalKey members) items)
    (hnamed : Named (Entries.lookup namedKey members) named) : split (.obj members) =
      match members.find? fun (k, _) => k != positionalKey && k != namedKey with
      | some (k, _) => .error (.of k "positional or named" "unexpected key")
      | none => .ok (items, named) := by
  unfold split
  dsimp only
  generalize Entries.lookup positionalKey members = items? at hitems
  generalize Entries.lookup namedKey members = named? at hnamed
  cases hitems <;> cases hnamed <;> rfl

theorem listed_of_split {members : List (String × Json)} {r : List Json × List (String × Json)}
    (h : split (.obj members) = .ok r) :
    (∃ items, Listed (Entries.lookup positionalKey members) items) ∧
      ∃ named, Named (Entries.lookup namedKey members) named := by
  unfold split at h
  dsimp only at h
  generalize Entries.lookup positionalKey members = items? at h ⊢
  generalize Entries.lookup namedKey members = named? at h ⊢
  constructor
  · split at h
    · exact ⟨_, .absent⟩
    · exact ⟨_, .null⟩
    · exact ⟨_, .items _⟩
    · cases h
  · split at h
    case h_4 => cases h
    -- the same for each of the three ways to have arguments by position
    all_goals
      split at h
      · exact ⟨_, .absent⟩
      · exact ⟨_, .null⟩
      · exact ⟨_, .members _⟩
      · cases h

/-- An envelope is taken apart into the arguments that stand under its two keys. -/
theorem split_eq_ok {j : Json} {items : List Json} {named : List (String × Json)} :
    split j = .ok (items, named) ↔ ∃ members, j = .obj members ∧
      (∀ m ∈ members, m.1 = positionalKey ∨ m.1 = namedKey) ∧
      Listed (Entries.lookup positionalKey members) items ∧
      Named (Entries.lookup namedKey members) named := by
  constructor
  · intro h
    cases j with
    | obj members =>
      obtain ⟨⟨items', hitems⟩, named', hnamed⟩ := listed_of_split h
      rw [split_obj hitems hnamed] at h
      split at h
      · cases h
      case h_2 hkeys =>
        cases h
        exact ⟨members, rfl, find?_strange_eq_none.1 hkeys, hitems, hnamed⟩
    | _ => cases h
  · rintro ⟨members, rfl, hkeys, hitems, hnamed⟩
    rw [split_obj hitems hnamed, find?_strange_eq_none.2 hkeys]

/-- The two steps of decoding: what the payload carries, and what the parameters make of it. -/
def parts (bytes : ByteArray) : Except CodecError (List Json × List (String × Json)) :=
  if Payload.isBlank bytes then .ok ([], [])
  else Payload.document Json.refusal bytes >>= fun j => (split j).mapError .mismatch

def allot (params : List Param) (items : List Json) (named : List (String × Json)) :
    Except CodecError (List Value) :=
  if params.length < items.length then .error (tooMany params items.length)
  else
    match Shape.undeclared? params named with
    | some name => .error (unknownName name)
    | none => readAll named params items

theorem decode_eq (params : List Param) (bytes : ByteArray) :
    decode params bytes = parts bytes >>= fun r => allot params r.1 r.2 := by
  unfold decode parts allot
  dsimp only
  split
  · rfl
  · cases Payload.document Json.refusal bytes with
    | error e => rfl
    | ok j =>
      change ((split j).mapError _ >>= _) = ((split j).mapError _ >>= _)
      cases split j <;> rfl

theorem parts_eq_ok {bytes : ByteArray} {items : List Json} {named : List (String × Json)} :
    parts bytes = .ok (items, named) ↔ Carries bytes items named := by
  unfold parts
  constructor
  · intro h
    split at h
    case isTrue hblank =>
      cases h
      exact .blank hblank
    case isFalse hblank =>
      obtain ⟨j, hj, h⟩ := bind_eq_ok.1 h
      obtain ⟨members, rfl, hkeys, hitems, hnamed⟩ := split_eq_ok.1 (mapError_eq_ok.1 h)
      exact .envelope (Bool.eq_false_of_not_eq_true hblank) (Payload.document_eq_ok.1 hj) hkeys
        hitems hnamed
  · intro h
    cases h with
    | blank hblank => rw [if_pos hblank]
    | envelope hblank hj hkeys hitems hnamed =>
      rw [hblank, if_neg Bool.false_ne_true]
      exact bind_eq_ok.2 ⟨_, Payload.document_eq_ok.2 hj,
        mapError_eq_ok.2 (split_eq_ok.2 ⟨_, rfl, hkeys, hitems, hnamed⟩)⟩

theorem allot_eq_ok {params : List Param} {items : List Json} {named : List (String × Json)}
    {vs : List Value} : allot params items named = .ok vs ↔ items.length ≤ params.length ∧
      (∀ m ∈ named, m.1 ∈ params.map Member.name) ∧ readAll named params items = .ok vs := by
  rw [← Shape.undeclared?_eq_none, ← Nat.not_lt]
  unfold allot
  split
  · simp [*]
  · split <;> simp [*]

/-- Arguments are decoded from what the payload carries alone. -/
theorem decode_eq_ok {params : List Param} {bytes : ByteArray} {vs : List Value} :
    decode params bytes = .ok vs ↔
      ∃ items named, Carries bytes items named ∧ allot params items named = .ok vs := by
  rw [decode_eq, bind_eq_ok]
  constructor
  · rintro ⟨⟨items, named⟩, hparts, h⟩
    exact ⟨items, named, parts_eq_ok.1 hparts, h⟩
  · rintro ⟨items, named, hcarries, h⟩
    exact ⟨(items, named), parts_eq_ok.2 hcarries, h⟩

/-! ## The envelope of a call -/

/-- The document of a variadic call. -/
def envelope (items : List Json) (members : List (String × Json)) : Json :=
  .object [(positionalKey, .arr items), (namedKey, .object members)]

theorem envelope_eq (items : List Json) (members : List (String × Json)) :
    envelope items members =
      .obj [(namedKey, .object members), (positionalKey, .arr items)] := by
  have hkeys : compare namedKey positionalKey = .lt := by decide
  simp [envelope, Json.object, Entries.ofList, Entries.insert, hkeys]

theorem split_envelope (items : List Json) (members : List (String × Json)) :
    split (envelope items members) = .ok (items, Entries.ofList members) := by
  have hne : positionalKey ≠ namedKey := by decide
  rw [envelope_eq]
  simp [split, Entries.lookup, hne]
  rfl

theorem printable_envelope {items : List Json} {members : List (String × Json)}
    (hitems : ∀ j ∈ items, j.Printable) (hmembers : ∀ m ∈ members, m.2.Printable) :
    (envelope items members).Printable := by
  refine .object ?_
  intro m hm
  simp only [List.mem_cons, List.not_mem_nil, or_false] at hm
  rcases hm with rfl | rfl
  · exact .arr hitems
  · exact .object hmembers

end Arguments

namespace Json

theorem itemDepth_le {items : List Json} {d : Nat} (h : ∀ j ∈ items, j.depth ≤ d) :
    itemDepth items ≤ d := by
  induction items with
  | nil => exact Nat.zero_le d
  | cons j js ih =>
    obtain ⟨hj, hjs⟩ := List.forall_mem_cons.1 h
    exact Nat.max_le.2 ⟨hj, ih hjs⟩

theorem memberDepth_le {members : List (String × Json)} {d : Nat}
    (h : ∀ m ∈ members, m.2.depth ≤ d) : memberDepth members ≤ d := by
  induction members with
  | nil => exact Nat.zero_le d
  | cons m ms ih =>
    obtain ⟨hm, hms⟩ := List.forall_mem_cons.1 h
    exact Nat.max_le.2 ⟨hm, ih hms⟩

theorem memberDepth_ofList_le {members : List (String × Json)} {d : Nat}
    (h : ∀ m ∈ members, m.2.depth ≤ d) : memberDepth (Entries.ofList members) ≤ d := by
  refine memberDepth_le fun m hm => ?_
  obtain ⟨m', hm', hv⟩ := Entries.exists_mem_of_mem_ofList hm
  exact hv ▸ h m' hm'

end Json

namespace Arguments

theorem depth_envelope_le {items : List Json} {members : List (String × Json)} {d : Nat}
    (hitems : ∀ j ∈ items, j.depth ≤ d) (hmembers : ∀ m ∈ members, m.2.depth ≤ d) :
    (envelope items members).depth ≤ d + 2 := by
  have h₁ := Json.itemDepth_le hitems
  have h₂ := Json.memberDepth_ofList_le hmembers
  rw [envelope_eq]
  simp only [Json.depth, Json.memberDepth, Json.object]
  omega

theorem carries_envelope {items : List Json} {members : List (String × Json)}
    (hitems : ∀ j ∈ items, j.Printable) (hmembers : ∀ m ∈ members, m.2.Printable)
    (hdepth : (envelope items members).depth ≤ Json.Raw.maxDepth) :
    Carries (envelope items members).text.toUTF8 items (Entries.ofList members) := by
  have hprintable := printable_envelope hitems hmembers
  rw [← parts_eq_ok, parts, Json.isBlank_text hprintable, if_neg Bool.false_ne_true]
  exact bind_eq_ok.2 ⟨_, Payload.document_eq_ok.2 (Json.ofBytes?_text hprintable hdepth),
    mapError_eq_ok.2 (split_envelope items members)⟩

end Arguments
end ObjectSpace
