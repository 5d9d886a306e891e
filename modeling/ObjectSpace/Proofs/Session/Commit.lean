import ObjectSpace.Proofs.Class.Fields
import ObjectSpace.Proofs.Session.Keyed
import ObjectSpace.Proofs.Session.Passes

/-!
# Commits

In an independent store a commit does to each object what would be done to it alone. A dirty object
whose batch is taken has written exactly its dirty fields and has nothing left to write; any other
object stays as it is, and what failed is what the next commit asks for.
-/

namespace ObjectSpace
namespace Session

variable {σ : Type} [Store σ]

/-- No object in the session is to be deleted. -/
def Separate (s : Session) : Prop := ∀ id, s.isResident id = true → s.deletions.contains id = false

/-- What a commit asks of the store, in order. -/
def writes (s : Session) : List Write := putsOf s.objects.entries ++ s.deletions.keys.map .delete

variable {s : Session}

theorem mem_entries {id : Identity} {o : Resident} :
    (id, o) ∈ s.objects.entries ↔ s.object? id = some o := Table.get?_eq_some_iff.symm

theorem Keyed.identity (h : s.Keyed) {e : Identity × Resident} (he : e ∈ s.objects.entries) :
    e.2.identity = e.1 := h e.1 e.2 (mem_entries.1 he)

theorem mem_putsOf {es : List (Identity × Resident)} {w : Write} :
    w ∈ putsOf es ↔ ∃ e ∈ es, e.2.write? = some w := List.mem_filterMap

theorem identity_of_write? {o : Resident} {w : Write} (h : o.write? = some w) :
    w.identity = o.identity := by
  obtain ⟨_, b, _, rfl⟩ := Resident.write?_eq_some h
  rfl

theorem identities_putsOf {es : List (Identity × Resident)}
    (hkeyed : ∀ e ∈ es, e.2.identity = e.1) :
    ((putsOf es).map Write.identity).Sublist (es.map Prod.fst) := by
  induction es with
  | nil => exact .slnil
  | cons e es ih =>
    obtain ⟨hid, hrest⟩ := List.forall_mem_cons.1 hkeyed
    unfold putsOf
    rw [List.filterMap_cons]
    cases hw : e.2.write? with
    | none => exact (ih hrest).cons _
    | some w =>
      have hw' : w.identity = e.1 := by
        rw [identity_of_write? hw, hid]
      rw [List.map_cons, List.map_cons, hw']
      exact (ih hrest).cons_cons _

theorem map_identity_delete (ids : List Identity) :
    (ids.map Write.delete).map Write.identity = ids := by
  rw [List.map_map]
  exact List.map_id ids

theorem Separate.not_mem (h : s.Separate) {id : Identity} (hid : id ∈ s.deletions.keys) :
    id ∉ s.objects.keys := by
  intro hmem
  have hclear := h id (Table.mem_keys.1 hmem)
  rw [Table.mem_keys.1 hid] at hclear
  cases hclear

theorem Separate.nodup (h : s.Separate) : (s.objects.keys ++ s.deletions.keys).Nodup :=
  List.nodup_append'.2 ⟨s.objects.nodup_keys, s.deletions.nodup_keys,
    fun _ hid hid' => h.not_mem hid' hid⟩

/-- Different writes are to different objects. -/
theorem nodup_writes (hkeyed : s.Keyed) (hsep : s.Separate) :
    (s.writes.map Write.identity).Nodup := by
  unfold writes
  rw [List.map_append, map_identity_delete]
  exact hsep.nodup.sublist
    ((identities_putsOf fun e he => hkeyed.identity he).append_right _)

theorem put_mem_writes {id : Identity} {o : Resident} {w : Write} (ho : s.object? id = some o)
    (hw : o.write? = some w) : w ∈ s.writes :=
  List.mem_append_left _ (mem_putsOf.2 ⟨(id, o), mem_entries.2 ho, hw⟩)

theorem delete_mem_writes {id : Identity} (h : s.deletions.contains id = true) :
    Write.delete id ∈ s.writes :=
  List.mem_append_right _ (List.mem_map_of_mem (Table.mem_keys.2 h))

/-! ## The session behind a commit -/

/-- What a commit has done, as told from the store that it begins with. -/
def reportOf (s : Session) (store : σ) : CommitReport where
  flushed := s.objects.entries.countP fun e => e.2.flushes store
  fields := ((s.objects.entries.filter fun e => e.2.flushes store).map
    fun e => e.2.state.dirty.size).sum
  deleted := s.deletions.keys.countP fun id => (Write.delete id).succeeds store
  failures := s.objects.entries.filterMap (CommitReport.flushFailure? store) ++
    s.deletions.keys.filterMap (CommitReport.deleteFailure? store)

variable {store : σ} {s' : Session}

/-- The session behind a commit: each object is flushed on its own, and the deletions that did not
succeed are queued. -/
structure Behind (s : Session) (store : σ) (s' : Session) : Prop where
  objects : s'.objects = s.objects.mapValues fun o => o.flushed store
  deletions : s'.deletions = s.deletions.filter fun id _ => !(Write.delete id).succeeds store

theorem objects_eq_mapValues
    (hobj : ∀ e ∈ s.objects.entries, s'.object? e.1 = some (e.2.flushed store))
    (hother : ∀ id, id ∉ s.objects.entries.map Prod.fst → s'.object? id = s.object? id) :
    s'.objects = s.objects.mapValues fun o => o.flushed store := by
  apply Table.ext_get?
  intro id
  rw [Table.get?_mapValues]
  change s'.object? id = (s.object? id).map _
  cases ho : s.object? id with
  | some o => exact hobj (id, o) (mem_entries.2 ho)
  | none =>
    have hid : id ∉ s.objects.keys := by
      rw [Table.mem_keys]
      exact Bool.eq_false_iff.1 (Table.get?_eq_none_iff.1 ho)
    rw [hother id hid, ho]
    rfl

namespace Behind

theorem object? (h : Behind s store s') (id : Identity) :
    s'.object? id = (s.object? id).map fun o => o.flushed store := by
  unfold Session.object?
  rw [h.objects, Table.get?_mapValues]

theorem contains (h : Behind s store s') (id : Identity) :
    s'.deletions.contains id =
      (s.deletions.contains id && !(Write.delete id).succeeds store) := by
  rw [h.deletions, Table.contains, Table.get?_filter, Table.contains]
  cases Table.get? s.deletions id with
  | none => rfl
  | some u =>
    rw [Option.filter_some]
    cases (Write.delete id).succeeds store <;> rfl

theorem object?_of_not_flushes (h : Behind s store s') {id : Identity} {o : Resident}
    (ho : s.object? id = some o) (hf : o.flushes store = false) : s'.object? id = some o := by
  rw [h.object?, ho, Option.map_some, Resident.flushed_of_not_flushes hf]

theorem keyed (h : Behind s store s') (hkeyed : s.Keyed) : s'.Keyed := by
  intro id o ho
  rw [h.object?] at ho
  obtain ⟨o', ho', rfl⟩ := Option.map_eq_some_iff.1 ho
  rw [Resident.identity_flushed]
  exact hkeyed id o' ho'

theorem separate (h : Behind s store s') (hsep : s.Separate) : s'.Separate := by
  intro id hid
  obtain ⟨o, ho⟩ := Table.contains_iff.1 hid
  have hobject : s'.object? id = some o := ho
  rw [h.object?] at hobject
  obtain ⟨o', ho', _⟩ := Option.map_eq_some_iff.1 hobject
  rw [h.contains, hsep id (Table.contains_iff.2 ⟨o', ho'⟩), Bool.false_and]

end Behind

theorem putsOf_flushed (es : List (Identity × Resident)) :
    putsOf (es.map fun e => (e.1, e.2.flushed store)) =
      (putsOf es).filter fun w => !w.succeeds store := by
  induction es with
  | nil => rfl
  | cons e es ih =>
    unfold putsOf at ih ⊢
    rw [List.map_cons, List.filterMap_cons, List.filterMap_cons, ih, Resident.write?_flushed]
    cases e.2.write? with
    | none => rfl
    | some w =>
      rw [Option.filter_some, List.filter_cons]
      cases w.succeeds store <;> rfl

/-- What failed is what is left to write. -/
theorem Behind.writes (h : Behind s store s') :
    s'.writes = s.writes.filter fun w => !w.succeeds store := by
  have hkeys : s'.deletions.keys =
      s.deletions.keys.filter fun id => !(Write.delete id).succeeds store := by
    rw [h.deletions, Table.keys, Table.keys, List.filter_map]
    rfl
  unfold Session.writes
  rw [List.filter_append, ← putsOf_flushed, hkeys, h.objects, List.filter_map]
  rfl

/-! ## The commit as a whole -/

theorem commit_apply (s : Session) (store : σ) : commit (s, store) =
    match flushEach .empty (s.objects.entries.map Prod.fst) (s, store) with
      | (.ok report, (s, store)) =>
        deleteEach report {} s.deletions.keys ({ s with deletions := {} }, store)
      | (o, t) => (o, t) := rfl

variable [IndependentStore σ]

/-- A commit in which the puts do not decide what comes of the deletions. -/
theorem commit_eq_of_start (hkeyed : s.Keyed) (hcalm : IndependentStore.calm store)
    (hstart : ∀ id ∈ s.deletions.keys,
      ((Write.delete id).perform (Write.afterAll (putsOf s.objects.entries) store)).1 =
        ((Write.delete id).perform store).1) :
    ∃ s', commit (s, store) = (.ok (s.reportOf store), (s', Write.afterAll s.writes store)) ∧
      Behind s store s' := by
  obtain ⟨s', heq, hdel, hobj, hother⟩ :=
    flushEach_eq .empty hcalm s.objects.nodup_keys (fun e he => hkeyed.identity he)
      (fun e he => mem_entries.1 he) (fun _ _ _ => rfl)
  have hcalm' := Write.calm_afterAll hcalm (putsOf s.objects.entries)
  have hdeletes := deleteEach_eq (s := { s' with deletions := {} })
    (s.objects.entries.foldl (.addFlush store) .empty) {} hcalm' s.deletions.nodup_keys hstart
  refine ⟨{ s' with deletions := s.deletions.keys.foldl (keepFailed store) {} }, ?_, ?_, ?_⟩
  · have hwrites : Write.afterAll (s.deletions.keys.map .delete)
        (Write.afterAll (putsOf s.objects.entries) store) = Write.afterAll s.writes store := by
      unfold writes Write.afterAll
      rw [List.foldl_append]
    rw [commit_apply, heq]
    dsimp only
    rw [hdel, hdeletes, hwrites, CommitReport.foldl_addFlush, CommitReport.foldl_addDelete]
    unfold reportOf CommitReport.empty
    simp only [Nat.zero_add, List.nil_append]
  · exact objects_eq_mapValues hobj hother
  · apply KeySet.ext_contains
    intro id
    rw [contains_foldl_keepFailed, Table.contains, Table.contains, Table.get?_filter]
    change (false || _) = _
    rw [Bool.false_or]
    by_cases hid : id ∈ s.deletions.keys
    · obtain ⟨u, hu⟩ := Table.contains_iff.1 (Table.mem_keys.1 hid)
      rw [hu, decide_eq_true hid, Option.filter_some]
      cases (Write.delete id).succeeds store <;> rfl
    · have hnone : Table.get? s.deletions id = none := by
        rw [Table.get?_eq_none_iff]
        exact Bool.eq_false_iff.2 fun h => hid (Table.mem_keys.2 h)
      rw [hnone, decide_eq_false hid]
      rfl

/-- The writes are asked for in order, whatever comes of them. -/
theorem store_commit (hkeyed : s.Keyed) (hcalm : IndependentStore.calm store) :
    (commit (s, store)).2.2 = Write.afterAll s.writes store := by
  obtain ⟨s', heq, hdel, _, _⟩ :=
    flushEach_eq .empty hcalm s.objects.nodup_keys (fun e he => hkeyed.identity he)
      (fun e he => mem_entries.1 he) (fun _ _ _ => rfl)
  have hcalm' := Write.calm_afterAll hcalm (putsOf s.objects.entries)
  have hdeletes := deleteEach_eq (s := { s' with deletions := {} })
    (s.objects.entries.foldl (.addFlush store) .empty) {} hcalm' s.deletions.nodup_keys
    (fun _ _ => rfl)
  rw [commit_apply, heq]
  dsimp only
  rw [hdel, hdeletes]
  exact List.foldl_append.symm

theorem commit_eq (hkeyed : s.Keyed) (hsep : s.Separate) (hcalm : IndependentStore.calm store) :
    ∃ s', commit (s, store) = (.ok (s.reportOf store), (s', Write.afterAll s.writes store)) ∧
      Behind s store s' := by
  refine commit_eq_of_start hkeyed hcalm fun id hid => ?_
  refine Write.perform_afterAll hcalm fun hmem => hsep.not_mem hid ?_
  exact (identities_putsOf fun e he => hkeyed.identity he).subset hmem

/-! ## What failed -/

theorem map_fst_flushFailure? (hcalm : IndependentStore.calm store) (e : Identity × Resident) :
    (CommitReport.flushFailure? store e).map Prod.fst =
      if e.2.isDirty && !e.2.flushes store then some e.1 else none := by
  unfold CommitReport.flushFailure?
  cases hd : e.2.isDirty with
  | false =>
    rw [Resident.flush_of_clean hd]
    rfl
  | true =>
    cases hf : e.2.flushes store with
    | true =>
      rw [← Resident.isOk_flush hd] at hf
      obtain ⟨n, hn⟩ := Outcome.isOk_iff.1 hf
      rw [hn]
      rfl
    | false =>
      obtain ⟨err, herr⟩ := Resident.exists_failure hcalm hd hf
      rw [herr]
      rfl

theorem map_fst_deleteFailure? (hcalm : IndependentStore.calm store) (id : Identity) :
    (CommitReport.deleteFailure? store id).map Prod.fst =
      if !(Write.delete id).succeeds store then some id else none := by
  have hcrash := IndependentStore.not_crash (w := .delete id) hcalm
  unfold CommitReport.deleteFailure? Write.succeeds
  cases hout : ((Write.delete id).perform store).1 with
  | ok u => rfl
  | fail e => rfl
  | crash => exact absurd hout hcrash

theorem map_fst_failures (hcalm : IndependentStore.calm store) :
    (s.reportOf store).failures.map Prod.fst =
      (s.objects.entries.filter fun e => e.2.isDirty && !e.2.flushes store).map Prod.fst ++
        s.deletions.keys.filter fun id => !(Write.delete id).succeeds store := by
  have hfilter : ∀ {α : Type} (f : α → Option (Identity × Report)) (g : α → Identity)
      (p : α → Bool) (l : List α), (∀ a, (f a).map Prod.fst = if p a then some (g a) else none) →
        (l.filterMap f).map Prod.fst = (l.filter p).map g := by
    intro α f g p l h
    induction l with
    | nil => rfl
    | cons a l ih =>
      have ha := h a
      rw [List.filterMap_cons, List.filter_cons]
      cases hf : f a with
      | none =>
        rw [hf] at ha
        split at ha
        · cases ha
        case isFalse hp => rw [if_neg hp, ih]
      | some x =>
        rw [hf] at ha
        split at ha
        case isTrue hp =>
          rw [if_pos hp, List.map_cons, List.map_cons, ih, Option.some.inj ha]
        case isFalse => cases ha
  unfold reportOf
  rw [List.map_append, hfilter _ _ _ _ (map_fst_flushFailure? hcalm),
    hfilter _ id _ _ (map_fst_deleteFailure? hcalm), List.map_id]

theorem nodup_failures (hsep : s.Separate) (hcalm : IndependentStore.calm store) :
    ((s.reportOf store).failures.map Prod.fst).Nodup := by
  rw [map_fst_failures hcalm]
  exact hsep.nodup.sublist ((List.filter_sublist.map _).append List.filter_sublist)

/-- An object that fails has one failure. -/
theorem filter_failures (hsep : s.Separate) (hcalm : IndependentStore.calm store)
    {x : Identity × Report} (hx : x ∈ (s.reportOf store).failures) :
    (s.reportOf store).failures.filter (fun y => y.1 = x.1) = [x] := by
  have hsingle : ∀ l : List (Identity × Report), (l.map Prod.fst).Nodup → x ∈ l →
      l.filter (fun y => y.1 = x.1) = [x] := by
    intro l
    induction l with
    | nil =>
      intro _ hmem
      cases hmem
    | cons y l ih =>
      intro hn hmem
      obtain ⟨hfresh, hn⟩ := List.nodup_cons.1 hn
      rcases List.mem_cons.1 hmem with rfl | hmem
      · have hnone : l.filter (fun y => y.1 = x.1) = [] := by
          refine List.filter_eq_nil_iff.2 fun y hy heq => hfresh ?_
          exact List.mem_map.2 ⟨y, hy, of_decide_eq_true heq⟩
        rw [List.filter_cons_of_pos (by simp), hnone]
      · have hne : y.1 ≠ x.1 := fun heq => hfresh (heq ▸ List.mem_map_of_mem hmem)
        rw [List.filter_cons_of_neg (by simpa using hne), ih hn hmem]
  exact hsingle _ (nodup_failures hsep hcalm) hx

/-! ## What is written -/

theorem not_mem_writes (hkeyed : s.Keyed) {id : Identity}
    (hput : ∀ o, s.object? id = some o → o.write? = none)
    (hdelete : s.deletions.contains id = false) : id ∉ s.writes.map Write.identity := by
  unfold writes
  rw [List.map_append, map_identity_delete, List.mem_append, not_or]
  constructor
  · intro hmem
    obtain ⟨w, hw, rfl⟩ := List.mem_map.1 hmem
    obtain ⟨⟨id, o⟩, he, hw⟩ := mem_putsOf.1 hw
    have hid : w.identity = id := by
      rw [identity_of_write? hw, hkeyed.identity he]
    have hnone := hput o (hid ▸ mem_entries.1 he)
    rw [hw] at hnone
    cases hnone
  · intro hmem
    rw [Table.mem_keys.1 hmem] at hdelete
    cases hdelete

theorem slots_commit (hkeyed : s.Keyed) (hsep : s.Separate) (hcalm : IndependentStore.calm store)
    {w : Write} (hw : w ∈ s.writes) :
    LawfulStore.slots (Write.afterAll s.writes store) w.identity =
      if w.succeeds store then w.apply (LawfulStore.slots store w.identity)
      else LawfulStore.slots store w.identity :=
  Write.slots_afterAll hcalm (nodup_writes hkeyed hsep) hw

/-- The slots of an object for which nothing is written stay. -/
theorem slots_commit_of_not_flushes (hkeyed : s.Keyed) (hsep : s.Separate)
    (hcalm : IndependentStore.calm store) {id : Identity} {o : Resident}
    (ho : s.object? id = some o) (hf : o.flushes store = false) :
    LawfulStore.slots (Write.afterAll s.writes store) id = LawfulStore.slots store id := by
  cases hw : o.write? with
  | none =>
    refine Write.slots_afterAll_of_not_mem (not_mem_writes hkeyed (fun o' ho' => ?_) ?_)
    · rw [ho] at ho'
      cases ho'
      exact hw
    · exact hsep id (Table.contains_iff.2 ⟨o, ho⟩)
  | some w =>
    rw [Resident.flushes, hw] at hf
    have hs : w.succeeds store = false := hf
    have hslots := slots_commit hkeyed hsep hcalm (put_mem_writes ho hw)
    rw [hs, identity_of_write? hw, hkeyed id o ho] at hslots
    exact hslots

/-- The slots of an object that is flushed and not deleted. -/
theorem slots_commit_of_flushes (hkeyed : s.Keyed) (hcalm : IndependentStore.calm store)
    {id : Identity} {o : Resident} (hqueued : s.deletions.contains id = false)
    (ho : s.object? id = some o) (hf : o.flushes store = true) :
    ∃ b, o.batch = .ok b ∧ o.flushed store = o.settle b ∧
      LawfulStore.slots (Write.afterAll s.writes store) id =
        (LawfulStore.slots store id).merge b := by
  obtain ⟨w, hw, hs⟩ := Resident.exists_write_of_flushes hf
  obtain ⟨b, hb, hwb, hflushed⟩ := Resident.flushed_of_flushes hw hs
  have hid : w.identity = id := by
    rw [identity_of_write? hw, hkeyed id o ho]
  have hputs : LawfulStore.slots (Write.afterAll (putsOf s.objects.entries) store) w.identity =
      w.apply (LawfulStore.slots store w.identity) := by
    have hsublist := identities_putsOf fun e he => hkeyed.identity he
    rw [Write.slots_afterAll hcalm (s.objects.nodup_keys.sublist hsublist)
      (mem_putsOf.2 ⟨(id, o), mem_entries.2 ho, hw⟩), if_pos hs]
  have hdeletes : id ∉ (s.deletions.keys.map Write.delete).map Write.identity := by
    rw [map_identity_delete, Table.mem_keys]
    exact Bool.eq_false_iff.1 hqueued
  refine ⟨b, hb, hflushed, ?_⟩
  have hwrites : Write.afterAll s.writes store = Write.afterAll (s.deletions.keys.map .delete)
      (Write.afterAll (putsOf s.objects.entries) store) := List.foldl_append
  rw [hwrites, Write.slots_afterAll_of_not_mem hdeletes]
  rw [hid, hwb] at hputs
  exact hputs

/-- What a commit adds to the slots of an object whose batches are taken is its batch. -/
theorem slots_commit_of_batch (hkeyed : s.Keyed) (hcalm : IndependentStore.calm store)
    {id : Identity} {o : Resident} (hqueued : s.deletions.contains id = false)
    (ho : s.object? id = some o) (htakes : Store.Takes id store) {b : Slots}
    (hb : o.batch = .ok b) :
    LawfulStore.slots (commit (s, store)).2.2 id = (LawfulStore.slots store id).merge b := by
  rw [store_commit hkeyed hcalm]
  cases hd : o.isDirty with
  | false =>
    obtain rfl : {} = b := Except.ok.inj ((Resident.batch_of_clean hd).symm.trans hb)
    rw [Table.merge_of_isEmpty rfl]
    refine Write.slots_afterAll_of_not_mem (not_mem_writes hkeyed (fun o' ho' => ?_) hqueued)
    obtain rfl : o = o' := Option.some.inj (ho.symm.trans ho')
    exact Resident.write?_of_clean hd
  | true =>
    have hflushes : o.flushes store = true := by
      have hput : (Store.put o.identity b store).1 = .ok () := hkeyed id o ho ▸ htakes b
      obtain ⟨n, hn⟩ := Resident.flush_ok hb hput
      rw [← Resident.isOk_flush hd, hn]
      rfl
    obtain ⟨b', hb', _, hslots⟩ := slots_commit_of_flushes hkeyed hcalm hqueued ho hflushes
    obtain rfl : b' = b := Except.ok.inj (hb'.symm.trans hb)
    exact hslots

/-! ## What a commit guarantees -/

/-- A commit led from a session and a store to others and gave a report. -/
structure Committed (s : Session) (store : σ) (report : CommitReport) (s' : Session)
    (store' : σ) : Prop where
  /-- The dirty fields of an object that is flushed are in its slots; its values stay. -/
  flushed : ∀ id o, s.object? id = some o → o.flushes store = true →
    (∀ i, o.state.dirty.contains i = true → ∃ f payload, o.schema.fieldAt? i = some f ∧
      f.shape.encode f.name (o.cached i) = .ok payload ∧
      (LawfulStore.slots store' id).get? i = some payload) ∧
    (∀ i, o.state.dirty.contains i = false →
      (LawfulStore.slots store' id).get? i = (LawfulStore.slots store id).get? i) ∧
    ∃ o', s'.object? id = some o' ∧ o'.identity = o.identity ∧ o'.schema = o.schema ∧
      o'.state.cache = o.state.cache ∧ o'.state.dirty = {}
  failed : ∀ id o, s.object? id = some o → o.isDirty = true → o.flushes store = false →
    s'.object? id = some o ∧ LawfulStore.slots store' id = LawfulStore.slots store id ∧
    ∃ e, (Resident.flush (o, store)).1 = .fail e ∧
      report.failures.filter (fun x => x.1 = id) = [(id, Reported.report e)]
  clean : ∀ id o, s.object? id = some o → o.isDirty = false →
    s'.object? id = some o ∧ LawfulStore.slots store' id = LawfulStore.slots store id ∧
    (∀ w ∈ s.writes, w.identity ≠ id) ∧ ∀ x ∈ report.failures, x.1 ≠ id
  absent : ∀ id, s.object? id = none → s'.object? id = none ∧
    (s.deletions.contains id = false →
      LawfulStore.slots store' id = LawfulStore.slots store id)
  deleted : ∀ id, s.deletions.contains id = true → (Write.delete id).succeeds store = true →
    s'.deletions.contains id = false ∧ LawfulStore.slots store' id = {}
  kept : ∀ id, s.deletions.contains id = true → (Write.delete id).succeeds store = false →
    s'.deletions.contains id = true ∧
    LawfulStore.slots store' id = LawfulStore.slots store id ∧
    ∃ e, ((Write.delete id).perform store).1 = .fail e ∧
      report.failures.filter (fun x => x.1 = id) = [(id, Reported.report e)]
  unqueued : ∀ id, s.deletions.contains id = false → s'.deletions.contains id = false
  flushedCount : report.flushed = s.objects.entries.countP fun e => e.2.flushes store
  fieldCount : report.fields = ((s.objects.entries.filter fun e => e.2.flushes store).map
    fun e => e.2.state.dirty.size).sum
  deletedCount : report.deleted =
    s.deletions.keys.countP fun id => (Write.delete id).succeeds store
  failures : report.failures.map Prod.fst =
    (s.objects.entries.filter fun e => e.2.isDirty && !e.2.flushes store).map Prod.fst ++
      s.deletions.keys.filter fun id => !(Write.delete id).succeeds store
  written : store' = Write.afterAll s.writes store
  /-- What failed is what is left to write. -/
  left : s'.writes = s.writes.filter fun w => !w.succeeds store

section

variable (hkeyed : s.Keyed) (hsep : s.Separate) (hcalm : IndependentStore.calm store)

include hkeyed hsep hcalm

theorem Behind.flushed (h : Behind s store s') {id : Identity} {o : Resident}
    (ho : s.object? id = some o) (hf : o.flushes store = true) :
    (∀ i, o.state.dirty.contains i = true → ∃ f payload, o.schema.fieldAt? i = some f ∧
      f.shape.encode f.name (o.cached i) = .ok payload ∧
      (LawfulStore.slots (Write.afterAll s.writes store) id).get? i = some payload) ∧
    (∀ i, o.state.dirty.contains i = false →
      (LawfulStore.slots (Write.afterAll s.writes store) id).get? i =
        (LawfulStore.slots store id).get? i) ∧
    ∃ o', s'.object? id = some o' ∧ o'.identity = o.identity ∧ o'.schema = o.schema ∧
      o'.state.cache = o.state.cache ∧ o'.state.dirty = {} := by
  have hqueued := hsep id (Table.contains_iff.2 ⟨o, ho⟩)
  obtain ⟨b, hb, hflushed, hslots⟩ := slots_commit_of_flushes hkeyed hcalm hqueued ho hf
  refine ⟨?_, ?_, o.settle b, ?_, rfl, rfl, Resident.cache_settle o b,
    Resident.dirty_settle hb⟩
  · intro i hi
    rw [← Resident.contains_batch hb] at hi
    obtain ⟨payload, hp⟩ := Table.contains_iff.1 hi
    obtain ⟨v, f, hv, hf, henc⟩ := Resident.exists_of_get?_batch hb hp
    rw [Resident.get?_pending] at hv
    split at hv
    · cases hv
      refine ⟨f, payload, hf, henc, ?_⟩
      rw [hslots, Table.get?_merge, hp, Option.some_or]
    · cases hv
  · intro i hi
    rw [← Resident.contains_batch hb, ← Table.get?_eq_none_iff] at hi
    rw [hslots, Table.get?_merge, hi, Option.none_or]
  · rw [h.object?, ho, Option.map_some, hflushed]

theorem Behind.failed (h : Behind s store s') {id : Identity} {o : Resident}
    (ho : s.object? id = some o) (hd : o.isDirty = true) (hf : o.flushes store = false) :
    s'.object? id = some o ∧
    LawfulStore.slots (Write.afterAll s.writes store) id = LawfulStore.slots store id ∧
    ∃ e, (Resident.flush (o, store)).1 = .fail e ∧
      (s.reportOf store).failures.filter (fun x => x.1 = id) = [(id, Reported.report e)] := by
  obtain ⟨e, he⟩ := Resident.exists_failure hcalm hd hf
  have hfailure : CommitReport.flushFailure? store (id, o) = some (id, Reported.report e) := by
    unfold CommitReport.flushFailure?
    rw [he]
  have hmem : (id, Reported.report e) ∈ (s.reportOf store).failures :=
    List.mem_append_left _ (List.mem_filterMap.2 ⟨(id, o), mem_entries.2 ho, hfailure⟩)
  exact ⟨h.object?_of_not_flushes ho hf, slots_commit_of_not_flushes hkeyed hsep hcalm ho hf, e,
    he, filter_failures hsep hcalm hmem⟩

theorem Behind.clean (h : Behind s store s') {id : Identity} {o : Resident}
    (ho : s.object? id = some o) (hd : o.isDirty = false) :
    s'.object? id = some o ∧
    LawfulStore.slots (Write.afterAll s.writes store) id = LawfulStore.slots store id ∧
    (∀ w ∈ s.writes, w.identity ≠ id) ∧ ∀ x ∈ (s.reportOf store).failures, x.1 ≠ id := by
  have hf := Resident.flushes_of_clean (s := store) hd
  have hresident : s.isResident id = true := Table.contains_iff.2 ⟨o, ho⟩
  refine ⟨h.object?_of_not_flushes ho hf, slots_commit_of_not_flushes hkeyed hsep hcalm ho hf,
    fun w hw heq => ?_, fun x hx heq => ?_⟩
  · have hwrite : ∀ o', s.object? id = some o' → o'.write? = none := by
      intro o' ho'
      rw [ho] at ho'
      cases ho'
      exact Resident.write?_of_clean hd
    exact not_mem_writes hkeyed hwrite (hsep id hresident) (List.mem_map.2 ⟨w, hw, heq⟩)
  · have hmem : id ∈ (s.reportOf store).failures.map Prod.fst := List.mem_map.2 ⟨x, hx, heq⟩
    rw [map_fst_failures hcalm, List.mem_append] at hmem
    rcases hmem with hmem | hmem
    · obtain ⟨⟨_, o'⟩, hfiltered, rfl⟩ := List.mem_map.1 hmem
      obtain ⟨he, hd'⟩ := List.mem_filter.1 hfiltered
      have ho' := mem_entries.1 he
      rw [ho] at ho'
      cases ho'
      rw [hd] at hd'
      cases hd'
    · exact hsep.not_mem (List.mem_of_mem_filter hmem) (Table.mem_keys.2 hresident)

theorem Behind.deleted (h : Behind s store s') {id : Identity}
    (hid : s.deletions.contains id = true) (hs : (Write.delete id).succeeds store = true) :
    s'.deletions.contains id = false ∧
    LawfulStore.slots (Write.afterAll s.writes store) id = {} := by
  have hslots := slots_commit hkeyed hsep hcalm (delete_mem_writes hid)
  rw [hs] at hslots
  refine ⟨?_, hslots⟩
  rw [h.contains, hid, hs]
  rfl

theorem Behind.kept (h : Behind s store s') {id : Identity}
    (hid : s.deletions.contains id = true) (hs : (Write.delete id).succeeds store = false) :
    s'.deletions.contains id = true ∧
    LawfulStore.slots (Write.afterAll s.writes store) id = LawfulStore.slots store id ∧
    ∃ e, ((Write.delete id).perform store).1 = .fail e ∧
      (s.reportOf store).failures.filter (fun x => x.1 = id) = [(id, Reported.report e)] := by
  have hslots := slots_commit hkeyed hsep hcalm (delete_mem_writes hid)
  rw [hs] at hslots
  obtain ⟨e, he⟩ : ∃ e, ((Write.delete id).perform store).1 = .fail e := by
    have hcrash := IndependentStore.not_crash (w := .delete id) hcalm
    unfold Write.succeeds at hs
    cases hout : ((Write.delete id).perform store).1 with
    | ok u =>
      rw [hout] at hs
      cases hs
    | fail e => exact ⟨e, rfl⟩
    | crash => exact absurd hout hcrash
  have hfailure : CommitReport.deleteFailure? store id = some (id, Reported.report e) := by
    unfold CommitReport.deleteFailure?
    rw [he]
  have hmem : (id, Reported.report e) ∈ (s.reportOf store).failures :=
    List.mem_append_right _ (List.mem_filterMap.2 ⟨id, Table.mem_keys.2 hid, hfailure⟩)
  refine ⟨?_, hslots, e, he, filter_failures hsep hcalm hmem⟩
  rw [h.contains, hid, hs]
  rfl

theorem Behind.committed (h : Behind s store s') :
    Committed s store (s.reportOf store) s' (Write.afterAll s.writes store) where
  flushed _ _ := h.flushed hkeyed hsep hcalm
  failed _ _ := h.failed hkeyed hsep hcalm
  clean _ _ := h.clean hkeyed hsep hcalm
  absent id ho := by
    constructor
    · rw [h.object?, ho]
      rfl
    · intro hid
      refine Write.slots_afterAll_of_not_mem (not_mem_writes hkeyed (fun o ho' => ?_) hid)
      rw [ho] at ho'
      cases ho'
  deleted _ := h.deleted hkeyed hsep hcalm
  kept _ := h.kept hkeyed hsep hcalm
  unqueued id hid := by
    rw [h.contains, hid]
    rfl
  flushedCount := rfl
  fieldCount := rfl
  deletedCount := rfl
  failures := map_fst_failures hcalm
  written := rfl
  left := h.writes

end

/-- A commit gives every object its due, and the next one only tries again what failed. -/
theorem commit_committed (hkeyed : s.Keyed) (hsep : s.Separate)
    (hcalm : IndependentStore.calm store) :
    ∃ report s' store', commit (s, store) = (.ok report, (s', store')) ∧
      Committed s store report s' store' ∧
      ∃ report' s'', commit (s', store') = (.ok report',
        (s'', Write.afterAll (s.writes.filter fun w => !w.succeeds store) store')) := by
  obtain ⟨s', heq, h⟩ := commit_eq hkeyed hsep hcalm
  obtain ⟨s'', heq', _⟩ := commit_eq (h.keyed hkeyed) (h.separate hsep)
    (Write.calm_afterAll hcalm s.writes)
  rw [h.writes] at heq'
  exact ⟨_, s', _, heq, h.committed hkeyed hsep hcalm, _, s'', heq'⟩

/-- The identity of a counter. -/
def counterId (n : UInt64) : Identity := ⟨"Counter", 0, n⟩

/-- A counter that is to be written. -/
def dirtyCounter (n : UInt64) : Resident :=
  ⟨counterId n, .counter, FieldState.unloaded.stage 0 (.int 5)⟩

/-- Two dirty counters, and one that is to be deleted. -/
def counters : Session :=
  ((((empty 0).putBack (dirtyCounter 1)).putBack (dirtyCounter 2)).delete (counterId 3)).2

/-- Only the first counter can be written here. -/
def refusing : Unreliable Memory :=
  ⟨(Faults.none.set .put (counterId 2) (some .rejected)).set .delete (counterId 3) (some .io),
    .empty⟩

theorem commit_committed_counters :
    counters.Keyed ∧ counters.Separate ∧ IndependentStore.calm refusing ∧
    ∃ report s' store', commit (counters, refusing) = (.ok report, (s', store')) ∧
      Committed counters refusing report s' store' ∧ report.flushed = 1 ∧ report.deleted = 0 := by
  have hkeyed : counters.Keyed :=
    (((keyed_empty 0).putBack (dirtyCounter 1)).putBack (dirtyCounter 2)).delete (counterId 3)
  have hsep : counters.Separate := by
    intro id h
    change Table.contains (KeySet.add {} (counterId 3)) id = false
    rw [KeySet.contains_add]
    by_cases hid : id = counterId 3
    · subst hid
      exact absurd h (by decide)
    · rw [decide_eq_false hid]
      rfl
  have hcalm : IndependentStore.calm refusing := ⟨rfl, trivial⟩
  obtain ⟨report, s', store', heq, h, _⟩ := commit_committed hkeyed hsep hcalm
  exact ⟨hkeyed, hsep, hcalm, report, s', store', heq, h, h.flushedCount.trans (by rfl),
    h.deletedCount.trans (by rfl)⟩

end Session
end ObjectSpace
