import ObjectSpace.Object.Resident
import ObjectSpace.Proofs.Success
import ObjectSpace.Proofs.Table

/-!
# The batch of an object

The batch of an object holds one payload for each dirty field, the encoding of its value. Once it is
settled no field is dirty, and all values are still there.
-/

namespace ObjectSpace

namespace Table

variable {κ : Type u} {ν : Type v} [Ord κ] [Std.TransOrd κ]

/-- A key below all others comes first. -/
theorem entries_insert_of_lt {t : Table κ ν} {k : κ} {v : ν}
    (h : ∀ e ∈ t.entries, compare k e.1 = .lt) : (t.insert k v).entries = (k, v) :: t.entries := by
  have hinsert : (t.insert k v).entries = Entries.insert k v t.entries := rfl
  rw [hinsert]
  cases hes : t.entries with
  | nil => rfl
  | cons e es =>
    have he : compare k e.1 = .lt := h e (hes ▸ List.mem_cons_self)
    rw [Entries.insert, he]

theorem ofList_entries [Std.LawfulEqOrd κ] (t : Table κ ν) : Table.ofList t.entries = t :=
  ext_entries (Entries.ofList_of_perm (.refl _) t.increasing)

end Table

namespace Resident

open Success

/-- The value that a field has in memory. -/
def cached (o : Resident) (i : UInt32) : Value := (o.state.cache.get? i).getD .null

/-- The values that are still to be written. -/
def pending (o : Resident) : Table UInt32 Value where
  entries := o.state.dirty.keys.map fun i => (i, o.cached i)
  increasing := by
    rw [Entries.Increasing, Table.keys, List.map_map, List.pairwise_map]
    exact o.state.dirty.increasing

theorem get?_pending (o : Resident) (i : UInt32) :
    o.pending.get? i = if o.state.dirty.contains i then some (o.cached i) else none := by
  have hmem : ∀ v, o.pending.get? i = some v ↔
      o.state.dirty.contains i = true ∧ o.cached i = v := by
    intro v
    rw [Table.get?_eq_some_iff, ← Table.mem_keys, pending, List.mem_map]
    constructor
    · rintro ⟨j, hj, he⟩
      cases he
      exact ⟨hj, rfl⟩
    · rintro ⟨hi, rfl⟩
      exact ⟨i, hi, rfl⟩
  split
  case isTrue hi => exact (hmem _).2 ⟨hi, rfl⟩
  case isFalse hi => exact Option.eq_none_iff_forall_ne_some.2 fun v hv => hi ((hmem v).1 hv).1

theorem keys_pending (o : Resident) : o.pending.keys = o.state.dirty.keys := by
  rw [Table.keys, pending, List.map_map, Function.comp_def, List.map_id']

theorem isEmpty_pending (o : Resident) : o.pending.isEmpty = !o.isDirty := by
  rw [isDirty, FieldState.isDirty, Bool.not_not, Table.isEmpty, Table.isEmpty, pending,
    List.isEmpty_map, Table.keys, List.isEmpty_map]

/-- What is written to the slot of a field for a value. -/
def encodeField (c : Class) (e : UInt32 × Value) : Except StateError (UInt32 × ByteArray) :=
  match c.fieldAt? e.1 with
  | none => .error (.unknownField c.id ("#" ++ toString e.1.toNat))
  | some f => ((f.shape.encode f.name e.2).mapError .codec).map fun payload => (e.1, payload)

theorem encodeField_eq_ok {c : Class} {i : UInt32} {v : Value} {r : UInt32 × ByteArray} :
    encodeField c (i, v) = .ok r ↔
      r.1 = i ∧ ∃ f, c.fieldAt? i = some f ∧ f.shape.encode f.name v = .ok r.2 := by
  unfold encodeField
  dsimp only
  constructor
  · intro h
    split at h
    · cases h
    case h_2 f hf =>
      obtain ⟨payload, hp, rfl⟩ := map_eq_ok.1 h
      exact ⟨rfl, f, hf, mapError_eq_ok.1 hp⟩
  · rintro ⟨rfl, f, hf, hp⟩
    rw [hf]
    exact map_eq_ok.2 ⟨r.2, mapError_eq_ok.2 hp, rfl⟩

theorem keys_of_mapM_encodeField {c : Class} {es : List (UInt32 × Value)}
    {rs : List (UInt32 × ByteArray)} (h : es.mapM (encodeField c) = .ok rs) :
    rs.map Prod.fst = es.map Prod.fst := by
  have hforall := mapM_eq_ok.1 h
  clear h
  induction hforall with
  | nil => rfl
  | cons hr _ ih => rw [List.map_cons, List.map_cons, ih, (encodeField_eq_ok.1 hr).1]

/-- The batch holds the encodings of the values in memory, in order. -/
theorem encodeDirty_entries (o : Resident) {is : List UInt32}
    (h : is.Pairwise fun i j => compare i j = .lt) :
    (o.encodeDirty is).map Table.entries =
      (is.map fun i => (i, o.cached i)).mapM (encodeField o.schema) := by
  induction is with
  | nil => rfl
  | cons i is ih =>
    obtain ⟨hi, his⟩ := List.pairwise_cons.1 h
    have hrest := ih his
    rw [List.map_cons, List.mapM_cons, ← hrest, encodeDirty, encodeField]
    dsimp only
    cases o.schema.fieldAt? i with
    | none => rfl
    | some f =>
      dsimp only
      rw [← cached]
      cases f.shape.encode f.name (o.cached i) with
      | error e => rfl
      | ok payload =>
        cases hb : o.encodeDirty is with
        | error e => rfl
        | ok b =>
          rw [hb] at hrest
          have hkeys := keys_of_mapM_encodeField hrest.symm
          have hbelow : ∀ e ∈ b.entries, compare i e.1 = .lt := by
            intro e he
            have hmem : e.1 ∈ is := by
              rw [List.map_map, Function.comp_def, List.map_id'] at hkeys
              exact hkeys ▸ List.mem_map_of_mem he
            exact hi e.1 hmem
          exact congrArg Except.ok (Table.entries_insert_of_lt hbelow)

theorem batch_entries (o : Resident) :
    o.batch.map Table.entries = o.pending.entries.mapM (encodeField o.schema) := by
  apply encodeDirty_entries o
  rw [Table.keys, List.pairwise_map]
  exact o.state.dirty.increasing

theorem batch_eq_ok {o : Resident} {b : Slots} :
    o.batch = .ok b ↔ o.pending.entries.mapM (encodeField o.schema) = .ok b.entries := by
  rw [← batch_entries]
  constructor
  · intro h
    rw [h]
    rfl
  · intro h
    obtain ⟨b', hb', he⟩ := map_eq_ok.1 h
    rw [hb', Table.ext_entries he]

theorem keys_batch {o : Resident} {b : Slots} (h : o.batch = .ok b) :
    b.keys = o.state.dirty.keys := by
  rw [← keys_pending]
  exact keys_of_mapM_encodeField (batch_eq_ok.1 h)

theorem contains_batch {o : Resident} {b : Slots} (h : o.batch = .ok b) (i : UInt32) :
    b.contains i = o.state.dirty.contains i := by
  rw [Bool.eq_iff_iff, ← Table.mem_keys, ← Table.mem_keys, keys_batch h]

/-- A slot of the batch is the encoding of the value that is pending for its field. -/
theorem exists_of_get?_batch {o : Resident} {b : Slots} (h : o.batch = .ok b) {i : UInt32}
    {payload : ByteArray} (hp : b.get? i = some payload) :
    ∃ v f, o.pending.get? i = some v ∧ o.schema.fieldAt? i = some f ∧
      f.shape.encode f.name v = .ok payload := by
  obtain ⟨⟨j, v⟩, hv, he⟩ :=
    exists_of_mem_right (mapM_eq_ok.1 (batch_eq_ok.1 h)) (Table.get?_eq_some_iff.1 hp)
  obtain ⟨hj, f, hf, henc⟩ := encodeField_eq_ok.1 he
  cases hj
  exact ⟨v, f, Table.get?_eq_some_iff.2 hv, hf, henc⟩

/-- The batch exists if all values that are still to be written can be encoded. -/
theorem exists_batch {o : Resident} (h : ∀ i v, o.pending.get? i = some v →
    ∃ f payload, o.schema.fieldAt? i = some f ∧ f.shape.encode f.name v = .ok payload) :
    ∃ b, o.batch = .ok b := by
  obtain ⟨rs, hrs⟩ : ∃ rs, List.Forall₂ (fun e r => encodeField o.schema e = .ok r)
      o.pending.entries rs := by
    refine exists_forall₂_of_forall fun e he => ?_
    obtain ⟨f, payload, hf, hencode⟩ := h e.1 e.2 (Table.get?_eq_some_iff.2 he)
    exact ⟨(e.1, payload), encodeField_eq_ok.2 ⟨rfl, f, hf, hencode⟩⟩
  obtain ⟨b, hb, _⟩ := map_eq_ok.1 ((batch_entries o).trans (mapM_eq_ok.2 hrs))
  exact ⟨b, hb⟩

/-- The batch holds the encoding of the value of a dirty field. -/
theorem exists_payload_of_batch {o : Resident} {b : Slots} (h : o.batch = .ok b) {i : UInt32}
    {v : Value} (hdirty : o.state.dirty.contains i = true)
    (hcached : o.state.cache.get? i = some v) :
    ∃ f payload, o.schema.fieldAt? i = some f ∧ f.shape.encode f.name v = .ok payload ∧
      b.get? i = some payload := by
  obtain ⟨payload, hpayload⟩ := Table.contains_iff.1 ((contains_batch h i).trans hdirty)
  obtain ⟨w, f, hw, hf, hencode⟩ := exists_of_get?_batch h hpayload
  rw [get?_pending, if_pos hdirty, cached, hcached] at hw
  obtain rfl : v = w := Option.some.inj hw
  exact ⟨f, payload, hf, hencode, hpayload⟩

end Resident

/-! ## Settling -/

namespace FieldState

theorem cache_settle (s : FieldState) (i : UInt32) : (s.settle i).cache = s.cache := by
  unfold settle
  split <;> rfl

theorem contains_dirty_settle (s : FieldState) (i j : UInt32) :
    (s.settle i).dirty.contains j = (!decide (j = i) && s.dirty.contains j) := by
  unfold settle
  by_cases hi : s.dirty.contains i = true
  · rw [if_pos hi, KeySet.contains_erase]
  · rw [if_neg hi]
    by_cases hj : j = i
    · simp [hj, hi]
    · simp [hj]

theorem cache_foldl_settle (is : List UInt32) (s : FieldState) :
    (is.foldl settle s).cache = s.cache := by
  induction is generalizing s with
  | nil => rfl
  | cons i is ih => rw [List.foldl_cons, ih, cache_settle]

theorem contains_dirty_foldl_settle (is : List UInt32) (s : FieldState) (j : UInt32) :
    (is.foldl settle s).dirty.contains j = (!decide (j ∈ is) && s.dirty.contains j) := by
  induction is generalizing s with
  | nil => simp
  | cons i is ih =>
    rw [List.foldl_cons, ih, contains_dirty_settle]
    by_cases hj : j = i <;> by_cases hmem : j ∈ is <;> simp [hj, hmem]

end FieldState

namespace Resident

/-- The values stay in memory. -/
theorem cache_settle (o : Resident) (b : Slots) : (o.settle b).state.cache = o.state.cache :=
  FieldState.cache_foldl_settle b.keys o.state

/-- When its own batch was written, nothing is left to be written. -/
theorem dirty_settle {o : Resident} {b : Slots} (h : o.batch = .ok b) :
    (o.settle b).state.dirty = {} := by
  refine Table.ext_get? fun i => Table.get?_eq_none_iff.2 ?_
  rw [settle, FieldState.contains_dirty_foldl_settle, keys_batch h]
  by_cases hi : i ∈ o.state.dirty.keys
  · simp [hi]
  · have hclean : o.state.dirty.contains i = false := by
      rw [Table.mem_keys] at hi
      exact Bool.eq_false_iff.2 hi
    rw [hclean, Bool.and_false]

end Resident
end ObjectSpace
