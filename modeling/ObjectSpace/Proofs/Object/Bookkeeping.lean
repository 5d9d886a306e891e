import ObjectSpace.Proofs.Object.Staged

/-!
# The books of an object

What an object knows of its fields is kept in three tables: the values in memory, the dirty fields
and the flushed ones. Whatever is done to an object and to the copies of it, no field is both dirty
and flushed, both kinds are in memory, and what is in memory belongs to a declared field. So a flush
finds a field and a value for all that it is to write.
-/

namespace ObjectSpace

open Success

namespace FieldState

section

variable (s : FieldState) (i : UInt32) (v : Value) (j : UInt32)

theorem contains_cache_load :
    (s.load i v).cache.contains j = (decide (j = i) || s.cache.contains j) :=
  Table.contains_insert s.cache i v j

theorem contains_cache_stage :
    (s.stage i v).cache.contains j = (decide (j = i) || s.cache.contains j) :=
  Table.contains_insert s.cache i v j

theorem contains_dirty_stage :
    (s.stage i v).dirty.contains j = (decide (j = i) || s.dirty.contains j) :=
  KeySet.contains_add s.dirty i j

theorem contains_flushed_stage :
    (s.stage i v).flushed.contains j = (!decide (j = i) && s.flushed.contains j) :=
  KeySet.contains_erase s.flushed i j

theorem contains_cache_evict :
    (s.evict i).cache.contains j = (!decide (j = i) && s.cache.contains j) :=
  Table.contains_erase s.cache i j

theorem contains_dirty_evict :
    (s.evict i).dirty.contains j = (!decide (j = i) && s.dirty.contains j) :=
  KeySet.contains_erase s.dirty i j

theorem contains_flushed_evict :
    (s.evict i).flushed.contains j = (!decide (j = i) && s.flushed.contains j) :=
  KeySet.contains_erase s.flushed i j

/-- Only a dirty field becomes flushed. -/
theorem contains_flushed_settle : (s.settle i).flushed.contains j =
    (decide (j = i) && s.dirty.contains i || s.flushed.contains j) := by
  unfold settle
  by_cases hi : s.dirty.contains i = true
  · rw [if_pos hi, KeySet.contains_add, hi, Bool.and_true]
  · rw [if_neg hi, Bool.eq_false_iff.2 hi, Bool.and_false, Bool.false_or]

end

/-- The three tables agree with each other and with the class. -/
structure Tidy (c : Class) (s : FieldState) : Prop where
  disjoint : ∀ i, s.dirty.contains i = true → s.flushed.contains i = false
  dirty_cached : ∀ i, s.dirty.contains i = true → s.cache.contains i = true
  flushed_cached : ∀ i, s.flushed.contains i = true → s.cache.contains i = true
  declared : ∀ i, s.cache.contains i = true → ∃ f ∈ c.fields, f.index = i

variable {c : Class} {s : FieldState}

theorem tidy_unloaded (c : Class) : unloaded.Tidy c where
  disjoint _ _ := rfl
  dirty_cached _ h := by cases h
  flushed_cached _ h := by cases h
  declared _ h := by cases h

theorem tidy_ofDefaults (c : Class) : (ofDefaults c).Tidy c where
  disjoint _ _ := rfl
  dirty_cached _ h := by cases h
  flushed_cached _ h := by cases h
  declared i h := by
    obtain ⟨v, hv⟩ := Table.contains_iff.1 h
    obtain ⟨_, _, hes, _⟩ := Entries.mem_ofList_iff.1 (Table.get?_eq_some_iff.1 hv)
    have hmem : (i, v) ∈ c.fields.map fun f => (f.index, f.default) :=
      hes ▸ List.mem_append_right _ List.mem_cons_self
    obtain ⟨f, hf, he⟩ := List.mem_map.1 hmem
    cases he
    exact ⟨f, hf, rfl⟩

theorem Tidy.load (h : s.Tidy c) {f : Field} (hf : f ∈ c.fields) (v : Value) :
    (s.load f.index v).Tidy c where
  disjoint := h.disjoint
  dirty_cached i hi := by rw [contains_cache_load, h.dirty_cached i hi, Bool.or_true]
  flushed_cached i hi := by rw [contains_cache_load, h.flushed_cached i hi, Bool.or_true]
  declared i hi := by
    rw [contains_cache_load, Bool.or_eq_true, decide_eq_true_iff] at hi
    rcases hi with rfl | hi
    · exact ⟨f, hf, rfl⟩
    · exact h.declared i hi

/-- A staged field changes from the flushed ones to the dirty ones. -/
theorem Tidy.stage (h : s.Tidy c) {f : Field} (hf : f ∈ c.fields) (v : Value) :
    (s.stage f.index v).Tidy c where
  disjoint i hi := by
    rw [contains_dirty_stage, Bool.or_eq_true, decide_eq_true_iff] at hi
    rw [contains_flushed_stage]
    rcases hi with rfl | hi
    · rw [decide_eq_true rfl, Bool.not_true, Bool.false_and]
    · rw [h.disjoint i hi, Bool.and_false]
  dirty_cached i hi := by
    rw [contains_dirty_stage, Bool.or_eq_true] at hi
    rw [contains_cache_stage, Bool.or_eq_true]
    exact hi.imp_right (h.dirty_cached i)
  flushed_cached i hi := by
    rw [contains_flushed_stage, Bool.and_eq_true] at hi
    rw [contains_cache_stage, h.flushed_cached i hi.2, Bool.or_true]
  declared := (h.load hf v).declared

theorem Tidy.evict (h : s.Tidy c) (j : UInt32) : (s.evict j).Tidy c where
  disjoint i hi := by
    rw [contains_dirty_evict, Bool.and_eq_true] at hi
    rw [contains_flushed_evict, h.disjoint i hi.2, Bool.and_false]
  dirty_cached i hi := by
    rw [contains_dirty_evict, Bool.and_eq_true] at hi
    rw [contains_cache_evict, hi.1, h.dirty_cached i hi.2, Bool.and_true]
  flushed_cached i hi := by
    rw [contains_flushed_evict, Bool.and_eq_true] at hi
    rw [contains_cache_evict, hi.1, h.flushed_cached i hi.2, Bool.and_true]
  declared i hi := by
    rw [contains_cache_evict, Bool.and_eq_true] at hi
    exact h.declared i hi.2

theorem Tidy.settle (h : s.Tidy c) (j : UInt32) : (s.settle j).Tidy c where
  disjoint i hi := by
    rw [contains_dirty_settle, Bool.and_eq_true, Bool.not_eq_true'] at hi
    rw [contains_flushed_settle, hi.1, h.disjoint i hi.2, Bool.false_and, Bool.or_false]
  dirty_cached i hi := by
    rw [contains_dirty_settle, Bool.and_eq_true] at hi
    rw [cache_settle, h.dirty_cached i hi.2]
  flushed_cached i hi := by
    rw [contains_flushed_settle, Bool.or_eq_true, Bool.and_eq_true, decide_eq_true_iff] at hi
    rw [cache_settle]
    rcases hi with ⟨rfl, hi⟩ | hi
    · exact h.dirty_cached i hi
    · exact h.flushed_cached i hi
  declared i hi := by
    rw [cache_settle] at hi
    exact h.declared i hi

theorem Tidy.settleAll (h : s.Tidy c) (is : List UInt32) :
    (is.foldl FieldState.settle s).Tidy c := by
  induction is generalizing s with
  | nil => exact h
  | cons i is ih => exact ih (h.settle i)

theorem phase_eq_dirty_iff {i : UInt32} : s.phase i = .dirty ↔ s.dirty.contains i = true := by
  unfold phase
  split
  case isTrue hi => simp [hi]
  case isFalse hi =>
    rw [iff_false_right hi]
    split
    · simp
    · split <;> simp

end FieldState

namespace Resident

/-- The books of the object are in order. -/
def Tidy (o : Resident) : Prop := o.state.Tidy o.schema

variable {o o' : Resident}

theorem tidy_created (id : Identity) (c : Class) : (created id c).Tidy :=
  FieldState.tidy_ofDefaults c

theorem tidy_loaded (id : Identity) (c : Class) : (loaded id c).Tidy :=
  FieldState.tidy_unloaded c

theorem Tidy.change (h : o.Tidy) (hchange : Change o o') : o'.Tidy := by
  cases hchange with
  | read hread =>
    cases hread with
    | stay => exact h
    | load hf _ _ => exact FieldState.Tidy.load h hf _
  | stage hf _ => exact FieldState.Tidy.stage h hf _
  | evict i => exact FieldState.Tidy.evict h i
  | @settle b _ => exact FieldState.Tidy.settleAll h b.keys

/-! ## What a flush writes -/

/-- The dirty fields and their values in memory, by slot. -/
def work (o : Resident) : List (Field × Value) :=
  o.state.dirty.keys.filterMap fun i =>
    (o.schema.fieldAt? i).bind fun f => (o.state.cache.get? i).map fun v => (f, v)

/-- The slot of a field with the payload for a value. -/
def encodeSlot (e : Field × Value) : Except CodecError (UInt32 × ByteArray) :=
  (e.1.shape.encode e.1.name e.2).map fun payload => (e.1.index, payload)

theorem phase_eq_dirty_iff {f : Field} (hf : f ∈ o.schema.fields) :
    o.phase f.name = .ok .dirty ↔ o.state.dirty.contains f.index = true := by
  have hfield : o.field f.name = .ok f := by
    unfold field
    rw [Class.field?_eq_some_iff.2 ⟨hf, rfl⟩]
  unfold phase
  rw [hfield, map_eq_ok, ← FieldState.phase_eq_dirty_iff]
  constructor
  · rintro ⟨g, hg, hphase⟩
    cases hg
    exact hphase
  · exact fun hphase => ⟨f, rfl, hphase⟩

theorem mem_work {f : Field} {v : Value} : (f, v) ∈ o.work ↔
    f ∈ o.schema.fields ∧ o.phase f.name = .ok .dirty ∧
      o.state.cache.get? f.index = some v := by
  rw [work, List.mem_filterMap]
  constructor
  · rintro ⟨i, hi, h⟩
    obtain ⟨g, hg, h⟩ := Option.bind_eq_some_iff.1 h
    obtain ⟨w, hw, h⟩ := Option.map_eq_some_iff.1 h
    cases h
    obtain ⟨hmem, rfl⟩ := Class.fieldAt?_eq_some_iff.1 hg
    exact ⟨hmem, (phase_eq_dirty_iff hmem).2 (Table.mem_keys.1 hi), hw⟩
  · rintro ⟨hmem, hphase, hv⟩
    refine ⟨f.index, Table.mem_keys.2 ((phase_eq_dirty_iff hmem).1 hphase), ?_⟩
    rw [Class.fieldAt?_eq_some_iff.2 ⟨hmem, rfl⟩, hv]
    rfl

/-- Each dirty slot has its place in the work. -/
theorem Tidy.forall₂_work (h : o.Tidy) :
    List.Forall₂ (fun i e => o.schema.fieldAt? i = some e.1 ∧ e.1.index = i ∧ o.cached i = e.2)
      o.state.dirty.keys o.work := by
  have hdirty : ∀ i ∈ o.state.dirty.keys, o.state.dirty.contains i = true :=
    fun _ => Table.mem_keys.1
  unfold work
  -- The walk is over a part of the dirty slots; the tables stay as they are.
  generalize o.state.dirty.keys = is at hdirty
  induction is with
  | nil => exact .nil
  | cons i is ih =>
    obtain ⟨hi, his⟩ := List.forall_mem_cons.1 hdirty
    have hcontains := h.dirty_cached i hi
    obtain ⟨v, hv⟩ := Table.contains_iff.1 hcontains
    obtain ⟨f, hmem, hindex⟩ := h.declared i hcontains
    have hf : o.schema.fieldAt? i = some f := Class.fieldAt?_eq_some_iff.2 ⟨hmem, hindex⟩
    have hcached : o.cached i = v := by
      unfold cached
      rw [hv]
      rfl
    rw [List.filterMap_cons_some (b := (f, v)) (by rw [hf, hv]; rfl)]
    exact .cons ⟨hf, hindex, hcached⟩ (ih his)

theorem Tidy.map_work (h : o.Tidy) :
    o.work.map (fun e => e.1.index) = o.state.dirty.keys := by
  have hforall := h.forall₂_work
  generalize o.state.dirty.keys = is, o.work = es at hforall
  induction hforall with
  | nil => rfl
  | cons he _ ih => rw [List.map_cons, ih, he.2.1]

/-- The batch is made of the work, and fails only where a value is not written. -/
theorem Tidy.batch_entries (h : o.Tidy) :
    o.batch.map Table.entries = (o.work.mapM encodeSlot).mapError .codec := by
  rw [Resident.batch_entries]
  refine mapM_eq_mapError (List.forall₂_map_left_iff.2 (h.forall₂_work.imp fun i e he => ?_))
  obtain ⟨hf, hindex, hcached⟩ := he
  unfold encodeField encodeSlot
  rw [hf, hcached, hindex]
  dsimp only
  cases e.1.shape.encode e.1.name e.2 <;> rfl

theorem Tidy.phase_eq_dirty_iff_exists (h : o.Tidy) {f : Field}
    (hf : f ∈ o.schema.fields) : o.phase f.name = .ok .dirty ↔ ∃ v, (f, v) ∈ o.work := by
  constructor
  · intro hphase
    obtain ⟨v, hv⟩ :=
      Table.contains_iff.1 (h.dirty_cached f.index ((phase_eq_dirty_iff hf).1 hphase))
    exact ⟨v, mem_work.2 ⟨hf, hphase, hv⟩⟩
  · rintro ⟨v, hv⟩
    exact (mem_work.1 hv).2.1

theorem Tidy.isDirty_iff (h : o.Tidy) : o.isDirty = true ↔ o.work ≠ [] := by
  have hkeys : o.state.dirty.keys = [] ↔ o.work = [] := by
    rw [← h.map_work, List.map_eq_nil_iff]
  rw [Ne, ← hkeys, isDirty, FieldState.isDirty, Bool.not_eq_true', Table.isEmpty,
    List.isEmpty_eq_false_iff, Table.keys, Ne, List.map_eq_nil_iff]

theorem write?_eq_some_iff {w : Write} :
    o.write? = some w ↔ o.isDirty = true ∧ ∃ b, o.batch = .ok b ∧ w = .put o.identity b := by
  refine ⟨write?_eq_some, ?_⟩
  rintro ⟨hd, b, hb, rfl⟩
  unfold write?
  rw [if_pos hd, hb]

/-! ## An object and its copies -/

/-- One deed among an object and its copies, which are numbered in the order they were made. -/
inductive Deed where
  | on (k : Nat) (r : Request)
  | copy (k : Nat)

variable {σ : Type} [Store σ]

def Deed.run (registry : Registry) : Deed → List Resident × σ → List Resident × σ
  | on k r, (os, store) =>
    match os[k]? with
    | none => (os, store)
    | some o =>
      let (o, store) := (r.run registry (o, store)).2
      (os.set k o, store)
  | copy k, (os, store) => (os ++ os[k]?.toList, store)

def runDeeds (registry : Registry) (deeds : List Deed) (t : List Resident × σ) :
    List Resident × σ := deeds.foldl (fun t d => d.run registry t) t

/-- What is there behind a deed was there before, and has changed once at most. -/
theorem Deed.exists_change (registry : Registry) (d : Deed) {t : List Resident × σ}
    (h : o' ∈ (d.run registry t).1) : ∃ o ∈ t.1, Change o o' := by
  obtain ⟨os, store⟩ := t
  cases d with
  | on k r =>
    unfold run at h
    dsimp only at h
    split at h
    case h_1 => exact ⟨o', h, .stay⟩
    case h_2 o ho =>
      rcases List.mem_or_eq_of_mem_set h with h | rfl
      · exact ⟨o', h, .stay⟩
      · exact ⟨o, List.mem_of_getElem? ho, r.change registry store⟩
  | copy k =>
    rcases List.mem_append.1 h with h | h
    · exact ⟨o', h, .stay⟩
    · exact ⟨o', List.mem_of_getElem? (Option.mem_toList.1 h), .stay⟩

theorem exists_changes_of_runDeeds (registry : Registry) (deeds : List Deed)
    {t : List Resident × σ} (h : o' ∈ (runDeeds registry deeds t).1) :
    ∃ o ∈ t.1, Changes o o' := by
  induction deeds generalizing t with
  | nil => exact ⟨o', h, .refl⟩
  | cons d deeds ih =>
    obtain ⟨o₁, ho₁, hchanges⟩ := ih h
    obtain ⟨o, ho, hchange⟩ := d.exists_change registry ho₁
    exact ⟨o, ho, .head hchange hchanges⟩

/-- Whatever was done to a new or loaded object and its copies, the books of each of them are in
order. Its batch is made of the values in memory of the dirty fields and fails only where one of
them is not written, and a flush asks the store for this batch if there is anything to write. -/
theorem books_in_order (registry : Registry) (c : Class) (id : Identity) (store : σ)
    {start : Resident} (hstart : start = created id c ∨ start = loaded id c) (deeds : List Deed)
    (ho : o ∈ (runDeeds registry deeds ([start], store)).1) :
    o.state.Tidy c ∧
    (∀ f v, (f, v) ∈ o.work ↔
      f ∈ c.fields ∧ o.phase f.name = .ok .dirty ∧ o.state.cache.get? f.index = some v) ∧
    (∀ f ∈ c.fields, o.phase f.name = .ok .dirty ↔ ∃ v, (f, v) ∈ o.work) ∧
    o.work.map (fun e => e.1.index) = o.state.dirty.keys ∧
    o.batch.map Table.entries = (o.work.mapM encodeSlot).mapError .codec ∧
    (∀ classId field, o.batch ≠ .error (.unknownField classId field)) ∧
    (∀ w, o.write? = some w ↔ o.work ≠ [] ∧ ∃ b, o.batch = .ok b ∧ w = .put id b) ∧
    ∀ s : σ, (flush (o, s)).2.2 = Write.afterAll o.write?.toList s := by
  obtain ⟨start', hmem, hchanges⟩ := exists_changes_of_runDeeds registry deeds ho
  obtain rfl : start' = start := List.mem_singleton.1 hmem
  have htidy : start'.Tidy := by
    rcases hstart with rfl | rfl
    · exact tidy_created id c
    · exact tidy_loaded id c
  have hidentity : o.identity = id := by
    rw [hchanges.identity]
    rcases hstart with rfl | rfl <;> rfl
  have hschema : o.schema = c := by
    rw [hchanges.schema]
    rcases hstart with rfl | rfl <;> rfl
  have h : o.Tidy := hchanges.keeps (fun _ _ hchange hx => hx.change hchange) htidy
  rw [← hschema, ← hidentity]
  refine ⟨h, fun f v => mem_work, fun f hf => h.phase_eq_dirty_iff_exists hf, h.map_work,
    h.batch_entries, ?_, fun w => ?_, fun s => store_flush⟩
  · intro classId field hunknown
    have hentries := h.batch_entries
    rw [hunknown] at hentries
    obtain ⟨e, _, he⟩ := mapError_eq_error.1 hentries.symm
    cases he
  · rw [write?_eq_some_iff, h.isDirty_iff]

/-- A copy is flushed and made to refer to another node, while the original forgets its count. -/
def parted : List Deed :=
  [.on 0 (.set "count" (.str "5")), .copy 0, .on 1 .flush,
    .on 1 (.setReference "next" (.live (nodeId 7))), .on 0 (.invalidate "count")]

theorem books_in_order_parted :
    ∃ original copy store,
      runDeeds .empty parted ([created (nodeId 1) node], Memory.empty) =
        ([original, copy], store) ∧
      original.work = [] ∧ copy.work.map (fun e => (e.1.name, e.2)) = [("next", .ref (nodeId 7))] ∧
      copy.state.flushed.keys = [1] ∧ copy.state.Tidy node ∧
      (∀ f v, (f, v) ∈ copy.work ↔ f ∈ node.fields ∧ copy.phase f.name = .ok .dirty ∧
        copy.state.cache.get? f.index = some v) ∧
      (∀ f ∈ node.fields, copy.phase f.name = .ok .dirty ↔ ∃ v, (f, v) ∈ copy.work) ∧
      copy.work.map (fun e => e.1.index) = copy.state.dirty.keys ∧
      copy.batch.map Table.entries = (copy.work.mapM encodeSlot).mapError .codec ∧
      (∀ classId field, copy.batch ≠ .error (.unknownField classId field)) ∧
      (∀ w, copy.write? = some w ↔
        copy.work ≠ [] ∧ ∃ b, copy.batch = .ok b ∧ w = .put (nodeId 1) b) ∧
      ∀ s : Memory, (flush (copy, s)).2.2 = Write.afterAll copy.write?.toList s := by
  obtain ⟨original, copy, store, hrun⟩ : ∃ original copy store,
      runDeeds .empty parted ([created (nodeId 1) node], Memory.empty) =
        ([original, copy], store) := ⟨_, _, _, rfl⟩
  have hmem : copy ∈ (runDeeds .empty parted ([created (nodeId 1) node], Memory.empty)).1 := by
    rw [hrun]
    exact List.mem_cons_of_mem _ List.mem_cons_self
  refine ⟨original, copy, store, hrun, ?_, ?_, ?_,
    books_in_order .empty node (nodeId 1) Memory.empty (.inl rfl) parted hmem⟩
  all_goals cases hrun; rfl

end Resident
end ObjectSpace
