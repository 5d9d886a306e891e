import Mathlib.Algebra.GroupWithZero.Nat
import ObjectSpace.Proofs.Object.Flush
import ObjectSpace.Session.Basic

/-!
# The two passes of a commit

A commit writes the dirty objects one after the other, and then deletes. Over any store, a pass goes
on behind each object unless the store crashes. In an independent store each pass comes to what its
writes come to in the store that the commit begins with.
-/

namespace ObjectSpace

namespace CommitReport

/-- The objects that could not be written or deleted. -/
def names (r : CommitReport) : List Identity := r.failures.map Prod.fst

theorem mem_names_addFailure {r : CommitReport} {id id' : Identity} {report : Report} :
    id ∈ (r.addFailure id' report).names ↔ id ∈ r.names ∨ id = id' := by
  unfold names addFailure
  rw [List.map_append, List.mem_append, List.map_singleton, List.mem_singleton]

theorem names_addFailure_subset (r : CommitReport) (id : Identity) (report : Report) :
    r.names ⊆ (r.addFailure id report).names :=
  fun _ hid => mem_names_addFailure.2 (.inl hid)

theorem mem_names_addFailure_self (r : CommitReport) (id : Identity) (report : Report) :
    id ∈ (r.addFailure id report).names :=
  mem_names_addFailure.2 (.inr rfl)

/-- What comes of a dirty object. -/
def addFlush {σ : Type} [Store σ] (s : σ) (r : CommitReport) (e : Identity × Resident) :
    CommitReport :=
  if e.2.isDirty then
    match (Resident.flush (e.2, s)).1 with
    | .ok written => r.addFlushed written
    | .fail err => r.addFailure e.1 (Reported.report err)
    | .crash => r
  else r

/-- What comes of a deletion. -/
def addDelete {σ : Type} [Store σ] (s : σ) (r : CommitReport) (id : Identity) : CommitReport :=
  match ((Write.delete id).perform s).1 with
  | .ok _ => r.addDeleted
  | .fail err => r.addFailure id (Reported.report err)
  | .crash => r

section

variable {σ : Type} [Store σ]

def flushFailure? (s : σ) (e : Identity × Resident) : Option (Identity × Report) :=
  match (Resident.flush (e.2, s)).1 with
  | .fail err => some (e.1, Reported.report err)
  | _ => none

def deleteFailure? (s : σ) (id : Identity) : Option (Identity × Report) :=
  match ((Write.delete id).perform s).1 with
  | .fail err => some (id, Reported.report err)
  | _ => none

theorem addFlush_eq (s : σ) (r : CommitReport) (e : Identity × Resident) :
    r.addFlush s e =
      ⟨r.flushed + if e.2.flushes s then 1 else 0,
        r.fields + if e.2.flushes s then e.2.state.dirty.size else 0, r.deleted,
        r.failures ++ (flushFailure? s e).toList⟩ := by
  obtain ⟨id, o⟩ := e
  unfold addFlush flushFailure?
  dsimp only
  cases hd : o.isDirty with
  | false =>
    rw [Resident.flush_of_clean hd, Resident.flushes_of_clean hd]
    exact congrArg (CommitReport.mk _ _ _) (List.append_nil _).symm
  | true =>
    rw [← Resident.isOk_flush hd]
    have hsize : ∀ n, (Resident.flush (o, s)).1 = .ok n → n = o.state.dirty.size := by
      intro n hn
      rcases o.write?_cases with ⟨hd', _⟩ | ⟨err, hd, hb, _⟩ | ⟨b, hd, hb, _⟩
      · rw [hd] at hd'
        cases hd'
      · rw [Resident.flush_of_not_encoded hd hb] at hn
        cases hn
      · rw [Resident.flush_of_batch hd hb] at hn
        split at hn <;> cases hn
        rfl
    cases hout : (Resident.flush (o, s)).1 with
    | ok n =>
      obtain rfl := hsize n hout
      exact congrArg (CommitReport.mk _ _ _) (List.append_nil _).symm
    | fail err => rfl
    | crash => exact congrArg (CommitReport.mk _ _ _) (List.append_nil _).symm

theorem foldl_addFlush (s : σ) (es : List (Identity × Resident)) (r : CommitReport) :
    es.foldl (.addFlush s) r =
      ⟨r.flushed + es.countP fun e => e.2.flushes s,
        r.fields + ((es.filter fun e => e.2.flushes s).map fun e => e.2.state.dirty.size).sum,
        r.deleted, r.failures ++ es.filterMap (flushFailure? s)⟩ := by
  induction es generalizing r with
  | nil => simp
  | cons e es ih =>
    rw [List.foldl_cons, ih, addFlush_eq, List.countP_cons, List.filter_cons, List.filterMap_cons]
    cases hf : e.2.flushes s <;> cases hfail : flushFailure? s e <;>
      simp [Nat.add_assoc, Nat.add_comm]

theorem addDelete_eq (s : σ) (r : CommitReport) (id : Identity) :
    r.addDelete s id =
      ⟨r.flushed, r.fields, r.deleted + if (Write.delete id).succeeds s then 1 else 0,
        r.failures ++ (deleteFailure? s id).toList⟩ := by
  unfold addDelete deleteFailure? Write.succeeds
  cases ((Write.delete id).perform s).1 with
  | ok u => exact congrArg (CommitReport.mk _ _ _) (List.append_nil _).symm
  | fail err => rfl
  | crash => exact congrArg (CommitReport.mk _ _ _) (List.append_nil _).symm

theorem foldl_addDelete (s : σ) (ids : List Identity) (r : CommitReport) :
    ids.foldl (.addDelete s) r =
      ⟨r.flushed, r.fields, r.deleted + ids.countP fun id => (Write.delete id).succeeds s,
        r.failures ++ ids.filterMap (deleteFailure? s)⟩ := by
  induction ids generalizing r with
  | nil => simp
  | cons id ids ih =>
    rw [List.foldl_cons, ih, addDelete_eq, List.countP_cons, List.filterMap_cons]
    cases hf : (Write.delete id).succeeds s <;> cases hfail : deleteFailure? s id <;>
      simp [Nat.add_assoc, Nat.add_comm]

end

end CommitReport

namespace Session

variable {σ : Type} [Store σ]

/-! ## One round -/

/-- The first pass at one object: there is nothing to write, or it is flushed. Unless the store
crashes, the pass goes on, and an object that is still dirty is named. -/
theorem flushEach_cases (s : Session) (store : σ) (report : CommitReport) (id : Identity)
    (ids : List Identity) :
    ((∀ o, s.object? id = some o → o.isDirty = false) ∧
      flushEach report (id :: ids) (s, store) = flushEach report ids (s, store)) ∨
    ∃ o, s.object? id = some o ∧
      let t := (Resident.flush (o, store)).2
      ((Resident.flush (o, store)).1 = .crash ∧
          flushEach report (id :: ids) (s, store) = (.crash, (s.putBack t.1, t.2)) ∨
        ∃ report', flushEach report (id :: ids) (s, store) =
            flushEach report' ids (s.putBack t.1, t.2) ∧
          report.names ⊆ report'.names ∧ (t.1.isDirty = true → id ∈ report'.names)) := by
  rw [flushEach]
  dsimp only
  cases ho : s.object? id with
  | none => exact .inl ⟨nofun, rfl⟩
  | some o =>
    dsimp only
    cases hd : o.isDirty with
    | false =>
      refine .inl ⟨fun o' ho' => ?_, rfl⟩
      cases ho'
      exact hd
    | true =>
      refine .inr ⟨o, rfl, ?_⟩
      rw [if_pos rfl]
      rcases hflush : Resident.flush (o, store) with ⟨out, o', store'⟩
      cases out with
      | ok written =>
        refine .inr ⟨_, rfl, List.Subset.refl _, fun hdirty => ?_⟩
        cases (Resident.clean_of_flush hflush).symm.trans hdirty
      | fail e =>
        exact .inr ⟨_, rfl, report.names_addFailure_subset id _,
          fun _ => report.mem_names_addFailure_self id _⟩
      | crash => exact .inl ⟨rfl, rfl⟩

/-- The second pass at one object: it is deleted, or it is named and queued again. The pass goes on
unless the store crashes. -/
theorem deleteEach_cases (s : Session) (store : σ) (report : CommitReport)
    (kept : KeySet Identity) (id : Identity) (ids : List Identity) :
    (∃ existed store', Store.delete id store = (.ok existed, store') ∧
      deleteEach report kept (id :: ids) (s, store) =
        deleteEach report.addDeleted kept ids (s, store')) ∨
    (∃ report', deleteEach report kept (id :: ids) (s, store) =
        deleteEach report' (kept.add id) ids (s, (Store.delete id store).2) ∧
      report.names ⊆ report'.names ∧ id ∈ report'.names) ∨
    (Store.delete id store).1 = .crash ∧
      deleteEach report kept (id :: ids) (s, store) = (.crash, (s, (Store.delete id store).2)) := by
  rw [deleteEach]
  dsimp only
  rcases Store.delete id store with ⟨out, store'⟩
  cases out with
  | ok existed => exact .inl ⟨existed, store', rfl, rfl⟩
  | fail e =>
    exact .inr (.inl ⟨_, rfl, report.names_addFailure_subset id _,
      report.mem_names_addFailure_self id _⟩)
  | crash => exact .inr (.inr ⟨rfl, rfl⟩)

/-! ## Passes in an independent store -/

def putsOf (es : List (Identity × Resident)) : List Write := es.filterMap fun e => e.2.write?

/-- A deletion that does not succeed is queued again. -/
def keepFailed (store : σ) (kept : KeySet Identity) (id : Identity) : KeySet Identity :=
  if (Write.delete id).succeeds store then kept else kept.add id

theorem contains_foldl_keepFailed (store : σ) (ids : List Identity) (kept : KeySet Identity)
    (id : Identity) : Table.contains (ids.foldl (keepFailed store) kept) id =
      (Table.contains kept id || (decide (id ∈ ids) && !(Write.delete id).succeeds store)) := by
  induction ids generalizing kept with
  | nil => simp
  | cons id' ids ih =>
    rw [List.foldl_cons, ih, keepFailed]
    by_cases hid : id = id'
    · subst hid
      cases (Write.delete id).succeeds store <;> simp [KeySet.contains_add]
    · split <;> simp [KeySet.contains_add, hid]

variable [IndependentStore σ]

theorem object?_putBack (s : Session) (o : Resident) (id : Identity) :
    (s.putBack o).object? id = if id = o.identity then some o else s.object? id :=
  Table.get?_insert s.objects o.identity o id

theorem putBack_self {s : Session} {o : Resident} (h : s.object? o.identity = some o) :
    s.putBack o = s := by
  have hobjects : s.objects.insert o.identity o = s.objects := by
    apply Table.ext_get?
    intro id
    rw [Table.get?_insert]
    split
    case isTrue hid =>
      rw [hid]
      exact h.symm
    case isFalse => rfl
  unfold putBack
  rw [hobjects]

theorem flushEach_cons {s : Session} {store : σ} {report : CommitReport} {o : Resident}
    (hcalm : IndependentStore.calm store) (ho : s.object? o.identity = some o)
    (ids : List Identity) :
    flushEach report (o.identity :: ids) (s, store) =
      flushEach (report.addFlush store (o.identity, o)) ids
        (s.putBack (o.flushed store), Write.afterAll o.write?.toList store) := by
  rw [flushEach]
  dsimp only
  rw [ho, CommitReport.addFlush]
  dsimp only
  cases hd : o.isDirty with
  | false =>
    rw [Resident.flushed_of_not_flushes (Resident.flushes_of_clean hd), putBack_self ho,
      Resident.write?_of_clean hd]
    rfl
  | true =>
    rw [← Resident.store_flush, Resident.flushed]
    have hcrash := Resident.flush_not_crash (o := o) hcalm
    rcases hflush : Resident.flush (o, store) with ⟨out, o', store'⟩
    rw [hflush] at hcrash
    cases out with
    | ok written => rfl
    | fail e => rfl
    | crash => exact absurd rfl hcrash

theorem flushEach_eq {es : List (Identity × Resident)} {s : Session} {store start : σ}
    (report : CommitReport) (hcalm : IndependentStore.calm store)
    (hnodup : (es.map Prod.fst).Nodup) (hkeyed : ∀ e ∈ es, e.2.identity = e.1)
    (hes : ∀ e ∈ es, s.object? e.1 = some e.2)
    (hstart : ∀ e ∈ es, ∀ b, ((Write.put e.1 b).perform store).1 =
      ((Write.put e.1 b).perform start).1) :
    ∃ s', flushEach report (es.map Prod.fst) (s, store) =
        (.ok (es.foldl (.addFlush start) report), (s', Write.afterAll (putsOf es) store)) ∧
      s'.deletions = s.deletions ∧
      (∀ e ∈ es, s'.object? e.1 = some (e.2.flushed start)) ∧
      ∀ id, id ∉ es.map Prod.fst → s'.object? id = s.object? id := by
  induction es generalizing s store report with
  | nil => exact ⟨s, rfl, rfl, by simp, fun _ _ => rfl⟩
  | cons e es ih =>
    obtain ⟨id, o⟩ := e
    obtain ⟨hid, hkeyed'⟩ := List.forall_mem_cons.1 hkeyed
    dsimp only at hid
    subst hid
    obtain ⟨hfresh, hnodup'⟩ := List.nodup_cons.1 hnodup
    obtain ⟨ho, hrest⟩ := List.forall_mem_cons.1 hes
    obtain ⟨hsame, hsames⟩ := List.forall_mem_cons.1 hstart
    obtain ⟨hend, hflushed⟩ := Resident.flush_congr hsame
    have hreport : report.addFlush store (o.identity, o) =
        report.addFlush start (o.identity, o) := by
      unfold CommitReport.addFlush
      rw [hend]
    have hne : ∀ e ∈ es, e.1 ≠ o.identity := fun e he heq =>
      hfresh (List.mem_map.2 ⟨e, he, heq⟩)
    have hes' : ∀ e ∈ es, (s.putBack (o.flushed start)).object? e.1 = some e.2 := by
      intro e he
      rw [object?_putBack, Resident.identity_flushed, if_neg (hne e he), hrest e he]
    have hstart' : ∀ e ∈ es, ∀ b,
        ((Write.put e.1 b).perform (Write.afterAll o.write?.toList store)).1 =
          ((Write.put e.1 b).perform start).1 := by
      intro e he b
      rw [← hsames e he b]
      apply Write.perform_afterAll hcalm
      intro hmem
      obtain ⟨w, hw, hwe⟩ := List.mem_map.1 hmem
      obtain ⟨_, b', _, rfl⟩ := Resident.write?_eq_some (Option.mem_toList.1 hw)
      exact hne e he hwe.symm
    have hcalm' := Write.calm_afterAll hcalm o.write?.toList
    obtain ⟨s', heq, hdel, hobj, hother⟩ :=
      ih (report.addFlush start (o.identity, o)) hcalm' hnodup' hkeyed' hes' hstart'
    have hputs : putsOf ((o.identity, o) :: es) = o.write?.toList ++ putsOf es := by
      unfold putsOf
      rw [List.filterMap_cons]
      cases o.write? <;> rfl
    refine ⟨s', ?_, hdel, List.forall_mem_cons.2 ⟨?_, hobj⟩, ?_⟩
    · rw [List.map_cons, flushEach_cons hcalm ho, hreport, hflushed, heq, hputs]
      unfold Write.afterAll
      rw [List.foldl_append, List.foldl_cons]
    · rw [hother o.identity hfresh, object?_putBack, Resident.identity_flushed, if_pos rfl]
    · intro id hid
      rw [List.map_cons, List.mem_cons, not_or] at hid
      rw [hother id hid.2, object?_putBack, Resident.identity_flushed, if_neg hid.1]

theorem deleteEach_eq {ids : List Identity} {s : Session} {store start : σ}
    (report : CommitReport) (kept : KeySet Identity) (hcalm : IndependentStore.calm store)
    (hnodup : ids.Nodup)
    (hstart : ∀ id ∈ ids, ((Write.delete id).perform store).1 =
      ((Write.delete id).perform start).1) :
    deleteEach report kept ids (s, store) =
      (.ok (ids.foldl (.addDelete start) report),
        ({ s with deletions := ids.foldl (keepFailed start) kept },
          Write.afterAll (ids.map .delete) store)) := by
  induction ids generalizing store report kept with
  | nil => rfl
  | cons id ids ih =>
    obtain ⟨hfresh, hnodup'⟩ := List.nodup_cons.1 hnodup
    obtain ⟨hsame, hsames⟩ := List.forall_mem_cons.1 hstart
    have hstart' : ∀ id' ∈ ids,
        ((Write.delete id').perform ((Write.delete id).after store)).1 =
          ((Write.delete id').perform start).1 := by
      intro id' hid'
      rw [← hsames id' hid']
      apply IndependentStore.perform_after hcalm
      intro heq
      cases heq
      exact hfresh hid'
    have hrest := fun report kept =>
      ih report kept (IndependentStore.calm_after (w := .delete id) hcalm) hnodup' hstart'
    have hcrash := IndependentStore.not_crash (w := .delete id) hcalm
    rw [deleteEach]
    dsimp only
    rw [List.foldl_cons, List.foldl_cons, CommitReport.addDelete, keepFailed, Write.succeeds,
      ← hsame]
    unfold Write.after at hrest
    change _ = (_, (_, Write.afterAll (ids.map .delete) ((Write.delete id).perform store).2))
    rw [Write.perform_delete] at hrest hcrash ⊢
    rcases hdelete : Store.delete id store with ⟨out, store'⟩
    rw [hdelete] at hrest hcrash
    cases out with
    | ok existed => exact hrest _ _
    | fail e => exact hrest _ _
    | crash => exact absurd rfl hcrash

end Session
end ObjectSpace
