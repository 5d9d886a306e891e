import ObjectSpace.Proofs.Object.Fate
import ObjectSpace.Proofs.Session.Over

/-!
# One object through a commit

A commit works on every object that is dirty and on every one that is to be deleted, and stops for
none of them but a crash. What this is for one object does not hang on the others: its batch is
written, or it is named among the failures and stays as it was. So it is for its deletion.
-/

namespace ObjectSpace

open Store (Related Kept Tracks)

namespace Session

variable {σ : Type} [Store σ] {id : Identity} {p : Option Resident → σ → Prop} {s : Session}
  {store : σ}

/-! ## What one object keeps -/

/-- This holds of the object, if the session has it, and of the store. -/
structure Holds (id : Identity) (p : Option Resident → σ → Prop) (t : Session × σ) : Prop where
  keyed : t.1.Keyed
  object : p (t.1.object? id) t.2

/-- Neither a flush of the object nor the work on others can change this. -/
structure Lasting (id : Identity) (p : Option Resident → σ → Prop) : Prop where
  flush (o : Resident) (s : σ) : o.identity = id → p (some o) s →
    p (some (Resident.flush (o, s)).2.1) (Resident.flush (o, s)).2.2
  others (o? : Option Resident) : Related (· ≠ id) (Kept (p o?))

/-- There is nothing to write of the object. -/
def Clean (o? : Option Resident) (_ : σ) : Prop := ∀ o, o? = some o → o.isDirty = false

theorem lasting_clean (id : Identity) : Lasting id (Clean : Option Resident → σ → Prop) where
  flush o s _ h o' ho' := by
    cases ho'
    rw [Resident.flush_of_clean (h o rfl)]
    exact h o rfl
  others _ := Store.related_kept (fun _ _ _ _ h => h) (fun _ _ _ _ h => h) fun _ _ _ h => h

theorem lasting_fate {held : σ → Slots} (htracks : Tracks id held) {o : Resident}
    (hid : o.identity = id) (slots : Slots) :
    Lasting id fun o? s => ∃ o', o? = some o' ∧ o.Fate slots o' (held s) where
  flush o' s _ h := by
    obtain ⟨_, ho', hfate⟩ := h
    cases ho'
    exact ⟨_, rfl, hfate.flush (hid.symm ▸ htracks)⟩
  others o? := htracks.others fun slots' => ∃ o', o? = some o' ∧ o.Fate slots o' slots'

omit [Store σ] in
/-- The object is worked on itself. -/
theorem Holds.putBack (h : Holds id p (s, store)) {o : Resident} {store' : σ}
    (hid : o.identity = id) (ho : p (some o) store') : Holds id p (s.putBack o, store') where
  keyed := h.keyed.putBack o
  object := by
    have hobject : (s.putBack o).object? id = some o :=
      (object?_putBack _ _ _).trans (if_pos hid.symm)
    exact hobject.symm ▸ ho

omit [Store σ] in
/-- Another object takes its place in the session. -/
theorem Holds.insert (h : Holds id p (s, store)) {o : Resident} (hne : o.identity ≠ id)
    (deletions : KeySet Identity) : Holds id p
      ({ s with objects := s.objects.insert o.identity o, deletions := deletions }, store) where
  keyed := h.keyed.insert rfl deletions
  object := by
    have hobject : (s.objects.insert o.identity o).get? id = s.object? id :=
      (Table.get?_insert _ _ _ _).trans (if_neg (Ne.symm hne))
    unfold object?
    dsimp only
    rw [hobject]
    exact h.object

omit [Store σ] in
/-- What is done to another object does not change what holds of this one. -/
theorem Holds.apart (h : Holds id p (s, store)) {ε α : Type} {o : Resident}
    {r : Run (Resident × σ) ε α} (hne : o.identity ≠ id)
    (hr : ∀ o?, Run.Parallel (Resident.Over (· ≠ id) (Kept (p o?))) r r) :
    Holds id p (s.putBack (r (o, store)).2.1, (r (o, store)).2.2) := by
  have hover := (hr _ (s := (o, store)) (t := (o, store)) ⟨rfl, hne, rfl, h.object⟩).2
  have hstore : Holds id p (s, (r (o, store)).2.2) := ⟨h.keyed, hover.stores.2⟩
  exact hstore.insert hover.mine s.deletions

theorem Holds.flush (h : Holds id p (s, store)) (hlasting : Lasting id p) {id' : Identity}
    {o : Resident} (ho : s.object? id' = some o) : Holds id p
      (s.putBack (Resident.flush (o, store)).2.1, (Resident.flush (o, store)).2.2) := by
  have hid' : o.identity = id' := h.keyed id' o ho
  by_cases hid : o.identity = id
  · have hflush : Resident.Change o (Resident.flush (o, store)).2.1 := .flush
    have ho' : s.object? id = some o := (hid'.symm.trans hid) ▸ ho
    have hobject : p (some o) store := ho' ▸ h.object
    exact h.putBack (hflush.identity.trans hid) (hlasting.flush o store hid hobject)
  · exact h.apart hid fun o? => Resident.parallel_flush (hlasting.others o?)

theorem Holds.flushEach (h : Holds id p (s, store)) (hlasting : Lasting id p)
    (report : CommitReport) (ids : List Identity) :
    Holds id p (flushEach report ids (s, store)).2 := by
  induction ids generalizing s store report with
  | nil => exact h
  | cons id' ids ih =>
    rcases flushEach_cases s store report id' ids with
      ⟨_, hround⟩ | ⟨o, ho, ⟨_, hround⟩ | ⟨report', hround, _⟩⟩ <;> rw [hround]
    · exact ih h report
    · exact h.flush hlasting ho
    · exact ih (h.flush hlasting ho) report'

theorem deletions_flushEach (s : Session) (store : σ) (report : CommitReport)
    (ids : List Identity) : (flushEach report ids (s, store)).2.1.deletions = s.deletions := by
  induction ids generalizing s store report with
  | nil => rfl
  | cons id' ids ih =>
    rcases flushEach_cases s store report id' ids with
      ⟨_, hround⟩ | ⟨o, _, ⟨_, hround⟩ | ⟨report', hround, _⟩⟩ <;> rw [hround]
    · exact ih s store report
    · rfl
    · exact ih (s.putBack _) _ report'

/-- What each of these deletions keeps of the store is kept by all of them. -/
theorem kept_deleteEach {q : σ → Prop} (report : CommitReport) (kept : KeySet Identity)
    {ids : List Identity} (hdelete : ∀ id ∈ ids, ∀ s, q s → q (Store.delete id s).2)
    (hq : q store) : q (deleteEach report kept ids (s, store)).2.2 := by
  induction ids generalizing store report kept with
  | nil => exact hq
  | cons id' ids ih =>
    obtain ⟨hfirst, hrest⟩ := List.forall_mem_cons.1 hdelete
    have hq' := hfirst store hq
    rcases deleteEach_cases s store report kept id' ids with
      ⟨_, store', hstore, hround⟩ | ⟨report', hround, _⟩ | ⟨_, hround⟩ <;> rw [hround]
    · rw [hstore] at hq'
      exact ih _ _ hrest hq'
    · exact ih _ _ hrest hq'
    · exact hq'

/-! ## Who is named -/

/-- What goes on after one object was looked at: it is clean, or it is named. -/
theorem flushEach_cons_eq_ok (hkeyed : s.Keyed) {report report' : CommitReport}
    {ids : List Identity} {t : Session × σ}
    (h : flushEach report (id :: ids) (s, store) = (.ok report', t)) :
    ∃ report₁ s₁ store₁, flushEach report₁ ids (s₁, store₁) = (.ok report', t) ∧ s₁.Keyed ∧
      report.names ⊆ report₁.names ∧
      ∀ o, s₁.object? id = some o → o.isDirty = true → id ∈ report₁.names := by
  rcases flushEach_cases s store report id ids with
    ⟨hclean, hround⟩ | ⟨o, ho, ⟨_, hround⟩ | ⟨report₁, hround, hnames, hnamed⟩⟩ <;> rw [hround] at h
  · refine ⟨_, _, _, h, hkeyed, List.Subset.refl _, fun o ho hdirty => ?_⟩
    cases (hclean o ho).symm.trans hdirty
  · cases h
  · have hflush : Resident.Change o (Resident.flush (o, store)).2.1 := .flush
    have hid : id = (Resident.flush (o, store)).2.1.identity :=
      (hflush.identity.trans (hkeyed id o ho)).symm
    refine ⟨_, _, _, h, hkeyed.putBack _, hnames, fun o' ho' hdirty => hnamed ?_⟩
    rw [object?_putBack, if_pos hid] at ho'
    cases ho'
    exact hdirty

theorem names_flushEach (hkeyed : s.Keyed) {report report' : CommitReport} {ids : List Identity}
    {t : Session × σ} (h : flushEach report ids (s, store) = (.ok report', t)) :
    report.names ⊆ report'.names := by
  induction ids generalizing s store report with
  | nil =>
    cases h
    exact List.Subset.refl _
  | cons id' ids ih =>
    obtain ⟨report₁, s₁, store₁, hrest, hkeyed₁, hnames, _⟩ := flushEach_cons_eq_ok hkeyed h
    exact List.Subset.trans hnames (ih hkeyed₁ hrest)

theorem names_deleteEach {report report' : CommitReport} {kept : KeySet Identity}
    {ids : List Identity} {t : Session × σ}
    (h : deleteEach report kept ids (s, store) = (.ok report', t)) :
    report.names ⊆ report'.names := by
  induction ids generalizing store report kept with
  | nil =>
    cases h
    exact List.Subset.refl _
  | cons id' ids ih =>
    rcases deleteEach_cases s store report kept id' ids with
      ⟨_, _, _, hround⟩ | ⟨report₁, hround, hnames, _⟩ | ⟨_, hround⟩ <;> rw [hround] at h
    · have hrest := ih h
      exact hrest
    · exact List.Subset.trans hnames (ih h)
    · cases h

/-- An object that is still dirty when all were flushed is named. -/
theorem named_of_dirty (hkeyed : s.Keyed) {report report' : CommitReport} {ids : List Identity}
    {s' : Session} {store' : σ} (h : flushEach report ids (s, store) = (.ok report', (s', store')))
    (hid : id ∈ ids) {o' : Resident} (ho' : s'.object? id = some o') (hdirty : o'.isDirty = true) :
    id ∈ report'.names := by
  induction ids generalizing s store report with
  | nil => cases hid
  | cons id' ids ih =>
    obtain ⟨report₁, s₁, store₁, hrest, hkeyed₁, _, hnamed⟩ := flushEach_cons_eq_ok hkeyed h
    rcases List.mem_cons.1 hid with rfl | hid
    · have hworks := works_flushEach hkeyed₁ store₁ report₁ ids
      rw [hrest] at hworks
      obtain ⟨o, ho, _⟩ := hworks.exists_object ho'
      refine names_flushEach hkeyed₁ hrest (hnamed o ho ?_)
      -- what is clean would have stayed clean
      rw [← Bool.not_eq_false]
      intro hclean
      have hclean₁ : Holds id Clean (s₁, store₁) :=
        ⟨hkeyed₁, fun o₁ ho₁ => Option.some.inj (ho.symm.trans ho₁) ▸ hclean⟩
      have hstays := (hclean₁.flushEach (lasting_clean id) report₁ ids).object
      rw [hrest] at hstays
      cases hdirty.symm.trans (hstays o' ho')
    · exact ih hkeyed₁ hrest hid

theorem contains_deleteEach {report report' : CommitReport} {kept : KeySet Identity}
    {ids : List Identity} {t : Session × σ}
    (h : deleteEach report kept ids (s, store) = (.ok report', t))
    (hid : kept.contains id = true) : t.1.deletions.contains id = true := by
  induction ids generalizing store report kept with
  | nil =>
    cases h
    exact hid
  | cons id' ids ih =>
    rcases deleteEach_cases s store report kept id' ids with
      ⟨_, _, _, hround⟩ | ⟨report₁, hround, _⟩ | ⟨_, hround⟩ <;> rw [hround] at h
    · exact ih h hid
    · refine ih h ?_
      rw [KeySet.contains_add, hid, Bool.or_true]
    · cases h

/-- An object that was to be deleted has no slots behind that, or it is named and queued again. -/
theorem held_deleteEach {held : σ → Slots} (htracks : Tracks id held)
    {report report' : CommitReport} {kept : KeySet Identity} {ids : List Identity}
    (hnodup : ids.Nodup) (hid : id ∈ ids) {t : Session × σ}
    (h : deleteEach report kept ids (s, store) = (.ok report', t)) :
    (id ∈ report'.names ∧ t.1.deletions.contains id = true) ∨ held t.2 = {} := by
  induction ids generalizing store report kept with
  | nil => cases hid
  | cons id' ids ih =>
    obtain ⟨hfresh, hnodup⟩ := List.nodup_cons.1 hnodup
    rcases deleteEach_cases s store report kept id' ids with
      ⟨_, store₁, hstore, hround⟩ | ⟨report₁, hround, _, hnamed⟩ | ⟨_, hround⟩ <;> rw [hround] at h
    · rcases List.mem_cons.1 hid with rfl | hid
      · have hkept := kept_deleteEach (s := s) report.addDeleted kept
          (fun _ hmem => (htracks.others (· = {})).keeps_delete fun heq => hfresh (heq ▸ hmem))
          (htracks.delete hstore)
        rw [h] at hkept
        exact .inr hkept
      · exact ih hnodup hid h
    · rcases List.mem_cons.1 hid with rfl | hid
      · refine .inl ⟨names_deleteEach h hnamed, contains_deleteEach h ?_⟩
        rw [KeySet.contains_add, decide_eq_true rfl, Bool.true_or]
      · exact ih hnodup hid h
    · cases h

/-! ## A commit -/

/-- An object that is not to be deleted keeps through a commit what lasts. -/
theorem Holds.commit (h : Holds id p (s, store)) (hlasting : Lasting id p)
    (hqueued : s.deletions.contains id = false) : Holds id p (commit (s, store)).2 := by
  have hflush := h.flushEach hlasting .empty s.objects.keys
  have hdeletions := deletions_flushEach s store .empty s.objects.keys
  unfold Session.commit
  dsimp only
  rcases hr : Session.flushEach .empty s.objects.keys (s, store) with ⟨out, s', store'⟩
  rw [hr] at hflush hdeletions
  cases out with
  | fail e => exact e.elim
  | crash => exact hflush
  | ok report =>
    have hids : ∀ id' ∈ s'.deletions.keys, id' ≠ id := by
      rintro _ hmem rfl
      exact Bool.eq_false_iff.1 (hdeletions ▸ hqueued) (Table.mem_keys.1 hmem)
    have hobjects := (deleteEach_keeps (s := { s' with deletions := {} }) store' report {}
      s'.deletions.keys).1
    have hobject : ∀ id', (deleteEach report {} s'.deletions.keys
        ({ s' with deletions := {} }, store')).2.1.object? id' = s'.object? id' :=
      fun id' => congrArg (fun t : Table Identity Resident => t.get? id') hobjects
    refine ⟨fun id' o' ho' => hflush.keyed id' o' (hobject id' ▸ ho'), ?_⟩
    dsimp only
    rw [hobject]
    exact kept_deleteEach report {}
      (fun id' hmem => (hlasting.others _).keeps_delete (hids id' hmem)) hflush.object

/-- What a commit does for an object that is not to be deleted. -/
theorem commit_fate (hkeyed : s.Keyed) {held : σ → Slots} (htracks : Tracks id held)
    {o : Resident} (ho : s.object? id = some o) (hqueued : s.deletions.contains id = false)
    (store : σ) : ∃ o', (commit (s, store)).2.1.object? id = some o' ∧
      o.Fate (held store) o' (held (commit (s, store)).2.2) :=
  (Holds.commit (p := fun o? s => ∃ o', o? = some o' ∧ o.Fate (held store) o' (held s))
    ⟨hkeyed, o, ho, .waits⟩ (lasting_fate htracks (hkeyed id o ho) _) hqueued).object

/-! ## Work on others -/

variable {id' : Identity} {α : Type}

omit [Store σ] in
theorem keeps_onObject (hne : id' ≠ id)
    {r : Run (Resident × σ) StateError α}
    (hr : ∀ o?, Run.Parallel (Resident.Over (· ≠ id) (Kept (p o?))) r r) :
    Run.Parallel (Kept (Holds id p)) (onObject id' r) (onObject id' r) := by
  rintro ⟨s, store⟩ _ ⟨rfl, h⟩
  refine ⟨rfl, rfl, ?_⟩
  unfold onObject
  dsimp only
  split
  · exact h
  case h_2 o ho => exact h.apart (h.keyed id' o ho ▸ hne) hr

theorem keeps_invokeCopy (hlasting : Lasting id p) (hne : id' ≠ id) (registry : Registry)
    (op : Operation) (e : Envelope) : Run.Parallel (Kept (Holds id p))
      (invokeCopy registry op id' e) (invokeCopy registry op id' e) := by
  rintro ⟨s, store⟩ _ ⟨rfl, h⟩
  refine ⟨rfl, rfl, ?_⟩
  cases ho : s.object? id' with
  | none =>
    unfold invokeCopy
    dsimp only
    rw [ho]
    exact h
  | some o =>
    have hne' : o.identity ≠ id := h.keyed id' o ho ▸ hne
    have hover := (op.parallel (hlasting.others _) registry e (s := ⟨o, store, false⟩)
      (t := ⟨o, store, false⟩) ⟨⟨rfl, hne', rfl, h.object⟩, rfl⟩).2.objects
    rw [invokeCopy_of_object ho]
    rcases hr : op.tryInvoke registry e ⟨o, store, false⟩ with ⟨out, scene⟩
    rw [hr] at hover
    have hstore : Holds id p (s, scene.store) := ⟨h.keyed, hover.stores.2⟩
    cases out with
    | ok bytes => exact hstore.insert hover.mine s.deletions
    | fail err => exact hstore
    | crash => exact hstore

theorem keeps_invokeLocal (hlasting : Lasting id p) (hne : id' ≠ id) (c : Catalog)
    (method : String) (arg : Value) : Run.Parallel (Kept (Holds id p))
      (invokeLocal c id' method arg) (invokeLocal c id' method arg) :=
  .bind (.ofExcept _) fun op => .bind (.ofExcept _) fun _ =>
    .bind (keeps_invokeCopy hlasting hne c.registry op _) fun _ => .ofExcept _

variable {report : CommitReport} {s' : Session} {store' : σ}

/-- An object that is still dirty behind a commit is named. -/
theorem named_of_commit (hkeyed : s.Keyed)
    (hcommit : commit (s, store) = (.ok report, (s', store'))) {o' : Resident}
    (ho' : s'.object? id = some o') (hdirty : o'.isDirty = true) :
    id ∈ report.names := by
  unfold commit at hcommit
  dsimp only at hcommit
  have hworks := works_flushEach hkeyed store .empty s.objects.keys
  rcases hr : flushEach .empty s.objects.keys (s, store) with ⟨out, s₁, store₁⟩
  rw [hr] at hcommit hworks
  cases out with
  | fail e => exact e.elim
  | crash => cases hcommit
  | ok report₁ =>
    have hobjects := (deleteEach_keeps (s := { s₁ with deletions := {} }) store₁ report₁ {}
      s₁.deletions.keys).1
    dsimp only at hcommit
    rw [hcommit] at hobjects
    have ho₁ : s₁.object? id = some o' := by
      unfold object? at ho' ⊢
      rwa [← show s'.objects = s₁.objects from hobjects]
    obtain ⟨o, ho, _⟩ := hworks.exists_object ho₁
    exact names_deleteEach hcommit (named_of_dirty hkeyed hr
      (Table.mem_keys.2 (Table.contains_iff.2 ⟨o, ho⟩)) ho₁ hdirty)

/-- An object that was to be deleted has no slots behind a commit, or it is named and still to be
deleted. -/
theorem held_commit {held : σ → Slots} (htracks : Tracks id held)
    (hqueued : s.deletions.contains id = true)
    (hcommit : commit (s, store) = (.ok report, (s', store'))) :
    (id ∈ report.names ∧ s'.deletions.contains id = true) ∨ held store' = {} := by
  have hdeletions := deletions_flushEach s store .empty s.objects.keys
  unfold commit at hcommit
  dsimp only at hcommit
  rcases hr : flushEach .empty s.objects.keys (s, store) with ⟨out, s₁, store₁⟩
  rw [hr] at hcommit hdeletions
  cases out with
  | fail e => exact e.elim
  | crash => cases hcommit
  | ok report₁ =>
    exact held_deleteEach htracks s₁.deletions.nodup_keys
      (Table.mem_keys.2 (hdeletions.symm ▸ hqueued)) hcommit

end Session
end ObjectSpace
