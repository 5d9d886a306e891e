import ObjectSpace.Proofs.Class.Fields
import ObjectSpace.Proofs.Object.Overlay
import ObjectSpace.Proofs.Store.Lawful

/-!
# Write-back

A loaded object does what its pending values over the stored slots do, whatever it has in memory.
A value in memory that is not pending is the one that its slot would give.
-/

namespace ObjectSpace

/-- If the value of a field is written, it is read back. -/
def Field.ReadsBack (f : Field) (v : Value) : Prop :=
  ∀ payload, f.shape.encode f.name v = .ok payload → f.shape.decode f.name payload = .ok v

namespace Resident

variable {σ : Type} [Store σ] [LawfulStore σ]

/-- The pending values of an object over its slots. -/
def overlay (o : Resident) (s : σ) : Overlay := ⟨o.pending, LawfulStore.slots s o.identity⟩

structure Coherent (c : Class) (id : Identity) (o : Resident) (s : σ) : Prop where
  identity : o.identity = id
  schema : o.schema = c
  cached : ∀ i, o.state.dirty.contains i = true → ∃ v, o.state.cache.get? i = some v
  clean : ∀ f ∈ c.fields, ∀ v, o.state.cache.get? f.index = some v →
    o.state.dirty.contains f.index = false → (o.overlay s).storedValue f = .ok v
  readsBack : ∀ f ∈ c.fields, ∀ v, o.pending.get? f.index = some v → f.ReadsBack v

theorem coherent_loaded (c : Class) (id : Identity) (s : σ) :
    Coherent c id (loaded id c) s where
  identity := rfl
  schema := rfl
  cached _ h := nomatch h
  clean _ _ _ h := nomatch h
  readsBack _ _ _ h := nomatch h

variable {c : Class} {id : Identity} {o : Resident} {s s' : σ}

theorem overlay_congr (h : LawfulStore.slots s' o.identity = LawfulStore.slots s o.identity) :
    o.overlay s' = o.overlay s := by
  unfold overlay
  rw [h]

/-- What others do to other objects is not seen. -/
theorem Coherent.of_slots_eq (h : Coherent c id o s)
    (hs : LawfulStore.slots s' o.identity = LawfulStore.slots s o.identity) :
    Coherent c id o s' where
  identity := h.identity
  schema := h.schema
  cached := h.cached
  clean := by
    rw [overlay_congr hs]
    exact h.clean
  readsBack := h.readsBack

theorem storedValue_eq (w : Overlay) (f : Field) :
    w.storedValue f = (Proxy.slotValue f (w.stored.get? f.index)).mapError .codec := by
  unfold Overlay.storedValue Proxy.slotValue
  cases w.stored.get? f.index <;> rfl

/-! ## Changes of one field -/

section

variable {i : UInt32} {v : Value}

theorem get?_pending_of_cache (hv : o.state.cache.get? i = some v) :
    o.pending.get? i = if o.state.dirty.contains i then some v else none := by
  rw [get?_pending, Resident.cached, hv]
  rfl

/-- A value that is loaded is not pending. -/
theorem pending_load (hi : o.state.dirty.contains i = false) :
    ({ o with state := o.state.load i v } : Resident).pending = o.pending := by
  apply Table.ext_get?
  intro j
  rw [get?_pending, get?_pending]
  by_cases hj : j = i
  · subst hj
    change (if o.state.dirty.contains j then _ else _) = _
    rw [hi]
    rfl
  · have hc : (o.state.load i v).cache.get? j = o.state.cache.get? j := by
      change (o.state.cache.insert i v).get? j = _
      rw [Table.get?_insert, if_neg hj]
    change (if o.state.dirty.contains j then some (((o.state.load i v).cache.get? j).getD _)
      else none) = _
    rw [hc]
    rfl

theorem pending_stage :
    ({ o with state := o.state.stage i v } : Resident).pending = o.pending.insert i v := by
  apply Table.ext_get?
  intro j
  rw [get?_pending, Table.get?_insert, get?_pending]
  change (if Table.contains (o.state.dirty.add i) j then
    some (((o.state.cache.insert i v).get? j).getD _) else none) = _
  rw [KeySet.contains_add, Table.get?_insert]
  by_cases hj : j = i
  · simp [hj]
  · simp only [hj, decide_false, Bool.false_or, if_false]
    rfl

theorem overlay_stage : ({ o with state := o.state.stage i v } : Resident).overlay s =
    { o.overlay s with pending := (o.overlay s).pending.insert i v } := by
  unfold overlay
  rw [pending_stage]

theorem pending_evict :
    ({ o with state := o.state.evict i } : Resident).pending = o.pending.erase i := by
  apply Table.ext_get?
  intro j
  rw [get?_pending, Table.get?_erase_eq, get?_pending]
  change (if Table.contains (Table.erase o.state.dirty i) j then
    some (((o.state.cache.erase i).get? j).getD _) else none) = _
  rw [KeySet.contains_erase, Table.get?_erase_eq]
  by_cases hj : j = i
  · simp [hj]
  · simp only [hj, decide_false, Bool.not_false, Bool.true_and, if_false]
    rfl

theorem overlay_evict : ({ o with state := o.state.evict i } : Resident).overlay s =
    { o.overlay s with pending := (o.overlay s).pending.erase i } := by
  unfold overlay
  rw [pending_evict]

end

/-! ## One operation -/

/-- The same end, and states that stand for each other. -/
structure Simulates (c : Class) (id : Identity)
    (p : Outcome StateError Answer × (Resident × σ)) (q : Outcome StateError Answer × Overlay) :
    Prop where
  seen : q = (p.1, p.2.1.overlay p.2.2)
  coherent : Coherent c id p.2.1 p.2.2

theorem Coherent.clean_load (h : Coherent c id o s) {f : Field} (hf : f ∈ c.fields) {v : Value}
    (hi : o.state.dirty.contains f.index = false) (hv : (o.overlay s).storedValue f = .ok v) :
    Coherent c id { o with state := o.state.load f.index v } s := by
  have hpending := pending_load (v := v) hi
  have hoverlay : ({ o with state := o.state.load f.index v } : Resident).overlay s =
      o.overlay s := by
    unfold overlay
    rw [hpending]
  refine ⟨h.identity, h.schema, ?_, ?_, ?_⟩
  · intro j hj
    change ∃ w, (o.state.cache.insert f.index v).get? j = some w
    rw [Table.get?_insert]
    split
    · exact ⟨v, rfl⟩
    · exact h.cached j hj
  · intro g hg w hw hclean
    rw [hoverlay]
    change (o.state.cache.insert f.index v).get? g.index = some w at hw
    rw [Table.get?_insert] at hw
    split at hw
    case isTrue hgf =>
      obtain rfl := Class.eq_of_index_eq hg hf hgf
      cases hw
      exact hv
    case isFalse => exact h.clean g hg w hw hclean
  · rw [hpending]
    exact h.readsBack

theorem Coherent.stage (h : Coherent c id o s) {f : Field} (hf : f ∈ c.fields) {v : Value}
    (hv : f.ReadsBack v) :
    Coherent c id { o with state := o.state.stage f.index v } s := by
  refine ⟨h.identity, h.schema, ?_, ?_, ?_⟩
  · intro j hj
    change ∃ w, (o.state.cache.insert f.index v).get? j = some w
    rw [Table.get?_insert]
    split
    · exact ⟨v, rfl⟩
    case isFalse hj' =>
      change Table.contains (o.state.dirty.add f.index) j = true at hj
      rw [KeySet.contains_add, decide_eq_false hj', Bool.false_or] at hj
      exact h.cached j hj
  · intro g hg w hw hclean
    change Table.contains (o.state.dirty.add f.index) g.index = false at hclean
    rw [KeySet.contains_add, Bool.or_eq_false_iff] at hclean
    have hgf : g.index ≠ f.index := of_decide_eq_false hclean.1
    change (o.state.cache.insert f.index v).get? g.index = some w at hw
    rw [Table.get?_insert, if_neg hgf] at hw
    exact h.clean g hg w hw hclean.2
  · intro g hg w hw
    rw [pending_stage, Table.get?_insert] at hw
    split at hw
    case isTrue hgf =>
      obtain rfl := Class.eq_of_index_eq hg hf hgf
      cases hw
      exact hv
    case isFalse => exact h.readsBack g hg w hw

theorem Coherent.evict (h : Coherent c id o s) (i : UInt32) :
    Coherent c id { o with state := o.state.evict i } s := by
  refine ⟨h.identity, h.schema, ?_, ?_, ?_⟩
  · intro j hj
    change Table.contains (Table.erase o.state.dirty i) j = true at hj
    rw [KeySet.contains_erase, Bool.and_eq_true, Bool.not_eq_true'] at hj
    have hji : j ≠ i := of_decide_eq_false hj.1
    change ∃ w, (o.state.cache.erase i).get? j = some w
    rw [Table.get?_erase_eq, if_neg hji]
    exact h.cached j hj.2
  · intro g hg w hw hclean
    change (o.state.cache.erase i).get? g.index = some w at hw
    rw [Table.get?_erase_eq] at hw
    split at hw
    · cases hw
    case isFalse hgi =>
      change Table.contains (Table.erase o.state.dirty i) g.index = false at hclean
      rw [KeySet.contains_erase, decide_eq_false hgi] at hclean
      exact h.clean g hg w hw hclean
  · intro g hg w hw
    rw [pending_evict, Table.get?_erase_eq] at hw
    split at hw
    · cases hw
    · exact h.readsBack g hg w hw

/-- After a batch the slot of a field holds what the field has in memory. -/
theorem Coherent.settle (h : Coherent c id o s) {b : Slots} (hb : o.batch = .ok b)
    (hs : LawfulStore.slots s' o.identity = (LawfulStore.slots s o.identity).merge b) :
    Coherent c id (o.settle b) s' := by
  have hdirty := dirty_settle hb
  refine ⟨h.identity, h.schema, ?_, ?_, ?_⟩
  · intro j hj
    rw [hdirty] at hj
    cases hj
  · intro g hg w hw _
    rw [cache_settle] at hw
    have hslot : ((o.settle b).overlay s').stored.get? g.index =
        (b.get? g.index).or ((o.overlay s).stored.get? g.index) := by
      change (LawfulStore.slots s' o.identity).get? g.index = _
      rw [hs, Table.get?_merge]
      rfl
    rw [storedValue_eq, hslot]
    cases hp : b.get? g.index with
    | some payload =>
      obtain ⟨v, f, hv, hf, henc⟩ := exists_of_get?_batch hb hp
      rw [h.schema] at hf
      obtain ⟨hmem, hi⟩ := Class.fieldAt?_eq_some_iff.1 hf
      obtain rfl := Class.eq_of_index_eq hmem hg hi
      have hvw : v = w := by
        rw [get?_pending_of_cache hw] at hv
        split at hv
        · exact (Option.some.inj hv).symm
        · cases hv
      subst hvw
      have hdec : f.shape.decode f.name payload = .ok v := h.readsBack f hg v hv payload henc
      exact congrArg (Except.mapError StateError.codec) hdec
    | none =>
      have hclean : o.state.dirty.contains g.index = false := by
        rw [← contains_batch hb, ← Table.get?_eq_none_iff]
        exact hp
      rw [Option.none_or, ← storedValue_eq]
      exact h.clean g hg w hw hclean
  · intro g hg w hw
    rw [get?_pending, hdirty] at hw
    cases hw

theorem simulates_cached (h : Coherent c id o s) {f : Field} (hf : f ∈ c.fields) {v : Value}
    (hv : o.state.cache.get? f.index = some v) :
    Simulates c id ((Answer.value <$> getField f : Run (Resident × σ) StateError Answer) (o, s))
      (Overlay.get (.unasked id s) f (o.overlay s)) := by
  have hget : getField f (o, s) = (.ok v, (o, s)) := by
    unfold getField
    dsimp only
    rw [hv]
  rw [Run.map_apply, hget, Overlay.get_apply]
  refine ⟨?_, h⟩
  have hpending : (o.overlay s).pending.get? f.index = _ := get?_pending_of_cache hv
  rw [hpending]
  cases hi : o.state.dirty.contains f.index with
  | true => rfl
  | false =>
    dsimp only
    rw [h.clean f hf v hv hi]
    rfl

theorem simulates_get (h : Coherent c id o s) {f : Field} (hf : f ∈ c.fields) :
    ∃ verdict : Verdict, verdict.Honest id s ∧
      Simulates c id ((Answer.value <$> getField f : Run (Resident × σ) StateError Answer) (o, s))
        (Overlay.get verdict f (o.overlay s)) := by
  cases hv : o.state.cache.get? f.index with
  | some v => exact ⟨.unasked id s, .inr rfl, simulates_cached h hf hv⟩
  | none =>
    have hi : o.state.dirty.contains f.index = false := by
      apply Bool.eq_false_iff.2
      intro hi
      obtain ⟨v, hv'⟩ := h.cached f.index hi
      rw [hv] at hv'
      cases hv'
    have hnone : (o.overlay s).pending.get? f.index = none := by
      change o.pending.get? f.index = none
      rw [get?_pending, hi]
      rfl
    obtain ⟨out, s', hget⟩ : ∃ out s', Store.get o.identity f.index s = (out, s') := ⟨_, _, rfl⟩
    have hslots : LawfulStore.slots s' o.identity = LawfulStore.slots s o.identity :=
      congrFun (LawfulStore.get_slots hget) o.identity
    have h' : Coherent c id o s' := h.of_slots_eq hslots
    have hasked : (Verdict.asked id s).get f.index = Verdict.ofOutcome out := by
      change Verdict.ofOutcome (Store.get id f.index s).1 = _
      rw [← h.identity, hget]
    refine ⟨.asked id s, .inl rfl, ?_⟩
    rw [Run.map_apply, getField, Overlay.get_apply, hnone, hasked]
    dsimp only
    rw [hv, hget]
    cases out with
    | fail e => exact ⟨by rw [overlay_congr hslots]; rfl, h'⟩
    | crash => exact ⟨by rw [overlay_congr hslots]; rfl, h'⟩
    | ok slot =>
      have hstored : (o.overlay s').storedValue f =
          (Proxy.slotValue f slot).mapError .codec := by
        rw [storedValue_eq, LawfulStore.get_answer hget, ← hslots]
        rfl
      rw [← overlay_congr hslots, hstored]
      dsimp only [Verdict.ofOutcome]
      cases hvalue : Proxy.slotValue f slot with
      | error e => exact ⟨rfl, h'⟩
      | ok v =>
        rw [hvalue] at hstored
        refine ⟨?_, h'.clean_load hf hi hstored⟩
        unfold overlay
        rw [pending_load hi]
        rfl

theorem simulates_set (h : Coherent c id o s) {f : Field} (hf : f ∈ c.fields) {v : Value}
    (hv : ∀ v', f.shape.coerce f.name v = .ok v' → f.ReadsBack v') :
    Simulates c id (setField f v (o, s)) (Overlay.set f v (o.overlay s)) := by
  rw [Overlay.set_apply, setField]
  cases hc : f.shape.coerce f.name v with
  | error e => exact ⟨rfl, h⟩
  | ok v' =>
    refine ⟨?_, h.stage hf (hv v' hc)⟩
    dsimp only [Except.mapError]
    rw [overlay_stage]

theorem simulates_invalidate (h : Coherent c id o s) (f : Field) :
    Simulates c id (.ok .done, ({ o with state := o.state.evict f.index }, s))
      (Overlay.invalidate f (o.overlay s)) := by
  refine ⟨?_, h.evict f.index⟩
  rw [overlay_evict]
  rfl

theorem simulates_flush (h : Coherent c id o s) :
    Simulates c id ((Answer.written <$> flush : Run (Resident × σ) StateError Answer) (o, s))
      (Overlay.flush c (.asked id s) (o.overlay s)) := by
  simp only [Run.map_apply, flush, Overlay.flush_apply]
  have hempty : (o.overlay s).pending.isEmpty = !o.isDirty := isEmpty_pending o
  have hbatch : (o.overlay s).pending.entries.mapM (encodeField c) = o.batch.map Table.entries := by
    rw [batch_entries, h.schema]
    rfl
  rw [hempty, hbatch]
  cases o.isDirty with
  | false => exact ⟨rfl, h⟩
  | true =>
    rw [if_pos rfl]
    cases hb : o.batch with
    | error e => exact ⟨rfl, h⟩
    | ok b =>
      obtain ⟨out, s', hput⟩ : ∃ out s', Store.put o.identity b s = (out, s') := ⟨_, _, rfl⟩
      have hasked : (Verdict.asked id s).put (Table.ofList b.entries) = out := by
        change (Store.put id (Table.ofList b.entries) s).1 = out
        rw [← h.identity, Table.ofList_entries, hput]
      dsimp only [Except.map]
      rw [hput, hasked]
      cases out with
      | ok u =>
        have hslots := LawfulStore.put_slots hput
        refine ⟨?_, h.settle hb hslots⟩
        have hpending : (o.settle b).pending = {} := by
          apply Table.ext_get?
          intro i
          rw [get?_pending, dirty_settle hb]
          rfl
        have hoverlay : (o.settle b).overlay s' =
            ⟨{}, (LawfulStore.slots s o.identity).merge b⟩ := by
          unfold overlay
          rw [hpending, ← hslots]
          rfl
        dsimp only
        rw [hoverlay]
        change (_, Overlay.mk {} ((LawfulStore.slots s o.identity).merge
          (Table.ofList b.entries))) = _
        rw [Table.ofList_entries]
        rfl
      | fail e =>
        have hslots := congrFun (LawfulStore.put_failed hput (by simp)) o.identity
        exact ⟨by rw [overlay_congr hslots]; rfl, h.of_slots_eq hslots⟩
      | crash =>
        have hslots := congrFun (LawfulStore.put_failed hput (by simp)) o.identity
        exact ⟨by rw [overlay_congr hslots]; rfl, h.of_slots_eq hslots⟩

/-! ## Any operation -/

/-- The values that an operation sets are read back as they are written. -/
def Operation.ReadsBack (c : Class) (id : Identity) : Operation → Prop
  | .set name v => ∀ f v', Overlay.field c id name = .ok f → f.shape.coerce f.name v = .ok v' →
    f.ReadsBack v'
  | .write accessor v => ∀ f v', Overlay.accessed c id accessor .write = .ok f →
    f.shape.coerce f.name v = .ok v' → f.ReadsBack v'
  | _ => True

theorem Coherent.field (h : Coherent c id o s) (name : String) :
    o.field name = Overlay.field c id name := by
  obtain rfl := h.schema
  obtain rfl := h.identity
  rfl

theorem mem_of_field {name : String} {f : Field} (h : Overlay.field c id name = .ok f) :
    f ∈ c.fields := by
  unfold Overlay.field at h
  split at h
  case h_1 g hg =>
    cases h
    exact Class.mem_of_field? hg
  · cases h

theorem Coherent.accessed (h : Coherent c id o s) (accessor : String) (access : Access) :
    (o.accessed accessor access >>= o.field) = Overlay.accessed c id accessor access := by
  unfold Resident.accessed Overlay.accessed
  rw [h.schema, h.identity]
  cases c.accessor? accessor with
  | none => rfl
  | some a =>
    dsimp only
    split
    · exact h.field a.field
    · rfl

theorem mem_of_accessed {accessor : String} {access : Access} {f : Field}
    (h : Overlay.accessed c id accessor access = .ok f) : f ∈ c.fields := by
  unfold Overlay.accessed at h
  split at h
  · cases h
  · split at h
    · exact mem_of_field h
    · cases h

theorem simulates_of_field (h : Coherent c id o s) {x : Except StateError Field}
    {r : Field → Outcome StateError Answer × (Resident × σ)}
    {r' : Verdict → Field → Run Overlay StateError Answer}
    (hr : ∀ f, x = .ok f → ∃ verdict : Verdict, verdict.Honest id s ∧
      Simulates c id (r f) (r' verdict f (o.overlay s))) :
    ∃ verdict : Verdict, verdict.Honest id s ∧
      Simulates c id
        (match x with
          | .ok f => r f
          | .error e => (.fail e, (o, s)))
        ((Run.ofExcept x >>= r' verdict) (o.overlay s)) := by
  cases x with
  | error e => exact ⟨.asked id s, .inl rfl, rfl, h⟩
  | ok f => exact hr f rfl

theorem simulates_perform (h : Coherent c id o s) {operation : Operation}
    (hset : operation.ReadsBack c id) :
    ∃ verdict : Verdict, verdict.Honest id s ∧
      Simulates c id (perform operation (o, s))
        (Overlay.perform c id verdict operation (o.overlay s)) := by
  cases operation with
  | get name =>
    rw [perform_get, h.field]
    exact simulates_of_field h fun f hf => simulates_get h (mem_of_field hf)
  | read accessor =>
    rw [perform_read, h.accessed]
    exact simulates_of_field h fun f hf => simulates_get h (mem_of_accessed hf)
  | set name v =>
    rw [perform_set, h.field]
    refine simulates_of_field h fun f hf => ⟨.asked id s, .inl rfl, ?_⟩
    exact simulates_set h (mem_of_field hf) fun v' => hset f v' hf
  | write accessor v =>
    rw [perform_write, h.accessed]
    refine simulates_of_field h fun f hf => ⟨.asked id s, .inl rfl, ?_⟩
    exact simulates_set h (mem_of_accessed hf) fun v' => hset f v' hf
  | invalidate name =>
    rw [perform_invalidate, h.field]
    exact simulates_of_field h fun f _ => ⟨.asked id s, .inl rfl, simulates_invalidate h f⟩
  | flush => exact ⟨.asked id s, .inl rfl, simulates_flush h⟩

/-! ## Runs -/

theorem simulates_trace {turns : List (Turn σ)} (h : Coherent c id o s)
    (hothers : ∀ t ∈ turns, ∀ s, LawfulStore.slots (t.others s) id = LawfulStore.slots s id)
    (hset : ∀ t ∈ turns, t.operation.ReadsBack c id) :
    ∃ verdicts : List Verdict,
      List.Forall₂ (fun v (x : Seen σ) => v.Honest id x.before) verdicts (trace turns (o, s)) ∧
      (trace turns (o, s)).map (fun x => (x.outcome, x.after.1.overlay x.after.2)) =
        Overlay.trace c id ((turns.map Turn.operation).zip verdicts) (o.overlay s) := by
  induction turns generalizing o s with
  | nil => exact ⟨[], .nil, rfl⟩
  | cons t ts ih =>
    obtain ⟨hothers, hrest⟩ := List.forall_mem_cons.1 hothers
    obtain ⟨hop, hsets⟩ := List.forall_mem_cons.1 hset
    have hslots : LawfulStore.slots (t.others s) o.identity = LawfulStore.slots s o.identity := by
      rw [h.identity, hothers]
    obtain ⟨v, hv, hsim⟩ := simulates_perform (h.of_slots_eq hslots) hop
    obtain ⟨vs, hvs, htrace⟩ := ih hsim.coherent hrest hsets
    refine ⟨v :: vs, .cons hv hvs, ?_⟩
    rw [overlay_congr hslots] at hsim
    rw [List.map_cons, List.zip_cons_cons, Overlay.trace, hsim.seen]
    exact congrArg (List.cons _) htrace

/-- A loaded object answers as its pending values over the stored slots do, and leaves the slots as
they do, whatever the store says to it. -/
theorem loaded_writes_back (c : Class) (id : Identity) (s : σ) (turns : List (Turn σ))
    (hothers : ∀ t ∈ turns, ∀ s, LawfulStore.slots (t.others s) id = LawfulStore.slots s id)
    (hset : ∀ t ∈ turns, t.operation.ReadsBack c id) :
    (∃ verdicts : List Verdict,
      List.Forall₂ (fun v (x : Seen σ) => v.Honest id x.before) verdicts
        (trace turns (loaded id c, s)) ∧
      (trace turns (loaded id c, s)).map (fun x => (x.outcome, x.after.1.overlay x.after.2)) =
        Overlay.trace c id ((turns.map Turn.operation).zip verdicts)
          ⟨{}, LawfulStore.slots s id⟩) ∧
      ∀ verdict operation, Overlay.Undone (Overlay.perform c id verdict operation) :=
  ⟨simulates_trace (coherent_loaded c id s) hothers hset, Overlay.undone_perform c id⟩

def counterTurns : List (Turn Memory) :=
  [⟨fun m => m, .set "count" (.int 5)⟩, ⟨fun m => m, .flush⟩, ⟨fun m => m, .invalidate "count"⟩,
    ⟨fun m => m, .get "count"⟩]

theorem readsBack_five : (Field.of "count" 0 .int none).ReadsBack (.int 5) := by
  intro payload h
  have hpayload : Except.ok "5".toUTF8 = Except.ok payload := h
  have hfive : (Shape.decode "count" .int "5".toUTF8).toOption.any (fun v => v.same (.int 5)) =
      true := by decide +kernel
  change Shape.decode "count" .int payload = _
  rw [← Except.ok.inj hpayload]
  cases hv : Shape.decode "count" .int "5".toUTF8 with
  | error e =>
    rw [hv] at hfive
    cases hfive
  | ok v =>
    rw [hv] at hfive
    have hsame : v.same (.int 5) = true := hfive
    cases v with
    | int n => rw [eq_of_beq hsame]
    | _ => cases hsame

theorem loaded_writes_back_counter :
    (∀ t ∈ counterTurns, ∀ m, LawfulStore.slots (t.others m) ⟨"Counter", 0, 1⟩ =
      LawfulStore.slots m ⟨"Counter", 0, 1⟩) ∧
    (∀ t ∈ counterTurns, t.operation.ReadsBack .counter ⟨"Counter", 0, 1⟩) ∧
    ∃ verdicts : List Verdict,
      (trace counterTurns (loaded ⟨"Counter", 0, 1⟩ .counter, Memory.empty)).map
        (fun x => (x.outcome, x.after.1.overlay x.after.2)) =
        Overlay.trace .counter ⟨"Counter", 0, 1⟩
          ((counterTurns.map Turn.operation).zip verdicts) ⟨{}, {}⟩ := by
  have hothers : ∀ t ∈ counterTurns, ∀ m, LawfulStore.slots (t.others m) ⟨"Counter", 0, 1⟩ =
      LawfulStore.slots m ⟨"Counter", 0, 1⟩ := by
    simp [counterTurns]
  have hset : ∀ t ∈ counterTurns, t.operation.ReadsBack .counter ⟨"Counter", 0, 1⟩ := by
    refine List.forall_mem_cons.2 ⟨?_, by simp [Operation.ReadsBack]⟩
    intro f v hf hv
    cases hf
    cases hv
    exact readsBack_five
  obtain ⟨⟨verdicts, _, htrace⟩, _⟩ :=
    loaded_writes_back .counter ⟨"Counter", 0, 1⟩ Memory.empty counterTurns hothers hset
  exact ⟨hothers, hset, verdicts, htrace⟩

end Resident
end ObjectSpace
