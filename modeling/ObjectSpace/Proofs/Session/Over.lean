import ObjectSpace.Proofs.Object.Over
import ObjectSpace.Proofs.Session.Call
import ObjectSpace.Proofs.Session.Step

/-!
# Sessions over related stores

A step of a session answers the one who takes it. Over stores that are related on the objects that a
session writes and deletes, and that its steps are about, every step gets the same answer and leaves
the same session.
-/

namespace ObjectSpace

namespace Session

/-- What a step tells the one who takes it. Making an object or bringing one in shows the object. -/
abbrev Step.Answer : Step → Type
  | .create _ _ _ | .load _ _ => Option Resident
  | .delete _ => Bool
  | .work _ r => r.Answer
  | .invoke _ _ _ => Value
  | .commit => CommitReport

/-- A change of a session alone. -/
def change {σ α : Type} (f : Session → Except SessionError (α × Session)) :
    Run (Session × σ) SessionError α := Run.onFirst (Run.update f)

def Step.answer {σ : Type} [Store σ] (c : Catalog) (localOnly : Bool) :
    (step : Step) → Run (Session × σ) SessionError step.Answer
  | .create fresh classId id? => change fun s =>
    (s.create c.registry localOnly fresh classId id?).map fun (id, s) => (s.object? id, s)
  | .load classId id => change fun s =>
    (s.load c.registry classId id).map fun s => (s.object? id, s)
  | .delete id => change fun s => .ok (s.delete id)
  | .work id r => onObject id (r.run c.registry)
  | .invoke id method arg => invokeLocal c id method arg
  | .commit => Session.commit.mapError nofun

/-- What is done to the session and the store is what the step performs. -/
theorem Step.state_answer {σ : Type} [Store σ] (c : Catalog) (localOnly : Bool) (step : Step)
    (t : Session × σ) : (step.answer c localOnly t).2 = perform c localOnly step t := by
  obtain ⟨s, store⟩ := t
  cases step with
  | create fresh classId id? =>
    unfold answer change Run.onFirst Run.update perform
    dsimp only
    cases s.create c.registry localOnly fresh classId id? <;> rfl
  | load classId id =>
    unfold answer change Run.onFirst Run.update perform
    dsimp only
    cases s.load c.registry classId id <;> rfl
  | delete id => rfl
  | work id r => rfl
  | invoke id method arg => rfl
  | commit => rfl

/-- Objects are held under their own identities, and those that are dirty or to be deleted are
among these. -/
structure Within (A : Identity → Prop) (s : Session) : Prop where
  keyed : s.Keyed
  dirty : ∀ id o, s.object? id = some o → o.isDirty = true → A id
  deletions : ∀ id, s.deletions.contains id = true → A id

theorem Within.empty {A : Identity → Prop} (partition : UInt32) : (empty partition).Within A where
  keyed := keyed_empty partition
  dirty _ _ h := nomatch h
  deletions _ h := nomatch h

/-- The step is about one of these objects, or about the session as a whole. -/
def Step.Within (A : Identity → Prop) : Step → Prop
  | .create _ _ id? => ∃ id, id? = some id ∧ A id
  | .load _ id | .delete id | .work id _ | .invoke id _ _ => A id
  | .commit => True

section

variable {A : Identity → Prop} {s : Session} {id : Identity} {o : Resident}

/-- What holds of all queued objects and of one that is queued with them. -/
theorem forall_contains_add (hid : A id) {ids : KeySet Identity}
    (h : ∀ id, ids.contains id = true → A id) :
    ∀ id', (ids.add id).contains id' = true → A id' := by
  intro id' hid'
  rw [KeySet.contains_add, Bool.or_eq_true] at hid'
  rcases hid' with heq | hid'
  · exact of_decide_eq_true heq ▸ hid
  · exact h id' hid'

theorem Within.insert (h : s.Within A) (hid : A o.identity) {deletions : KeySet Identity}
    (hdeletions : ∀ id, deletions.contains id = true → A id) :
    Within A { s with objects := s.objects.insert o.identity o, deletions := deletions } where
  keyed := h.keyed.insert rfl deletions
  dirty := forall_object_insert (fun id o ho => h.dirty id o ho) (fun _ => hid) deletions
  deletions := hdeletions

theorem Within.putBack (h : s.Within A) (hid : A o.identity) : (s.putBack o).Within A :=
  h.insert hid h.deletions

theorem Within.created (h : s.Within A) (hid : A id) (c : Class) : Within A { s with
    objects := s.objects.insert id (.created id c), deletions := s.deletions.erase id } := by
  refine h.insert (o := .created id c) hid fun id' hid' => ?_
  rw [KeySet.contains_erase, Bool.and_eq_true] at hid'
  exact h.deletions id' hid'.2

theorem Within.delete (h : s.Within A) (hid : A id) : (s.delete id).2.Within A where
  keyed := h.keyed.delete id
  dirty := forall_object_delete h.dirty id
  deletions := forall_contains_add hid h.deletions

end

variable {σ τ : Type} {A : Identity → Prop} {R : σ → τ → Prop}

/-- The same session over each of two stores. What it writes and deletes is in `A`. -/
structure Over (A : Identity → Prop) (R : σ → τ → Prop) (x : Session × σ) (y : Session × τ) :
    Prop where
  session : y.1 = x.1
  within : x.1.Within A
  stores : R x.2 y.2

variable {α ε : Type} {id : Identity}

theorem parallel_change {f : Session → Except SessionError (α × Session)}
    (hf : ∀ s a s', s.Within A → f s = .ok (a, s') → s'.Within A) :
    Run.Parallel (Over A R) (change f) (change f) := by
  rintro ⟨_, store⟩ ⟨s, store'⟩ ⟨rfl, hs, hR⟩
  unfold change Run.onFirst Run.update
  dsimp only
  cases h : f s with
  | error e => exact ⟨rfl, rfl, hs, hR⟩
  | ok p => exact ⟨rfl, rfl, hf s p.1 p.2 hs h, hR⟩

theorem parallel_onObject (hid : A id) {r : Run (Resident × σ) StateError α}
    {r' : Run (Resident × τ) StateError α} (h : Run.Parallel (Resident.Over A R) r r') :
    Run.Parallel (Over A R) (onObject id r) (onObject id r') := by
  rintro ⟨_, store⟩ ⟨s, store'⟩ ⟨rfl, hs, hR⟩
  unfold onObject
  dsimp only
  cases ho : s.object? id with
  | none => exact ⟨rfl, rfl, hs, hR⟩
  | some o =>
    have hmine : A o.identity := (hs.keyed id o ho).symm ▸ hid
    obtain ⟨out, ⟨_, t⟩, ⟨o', t'⟩, hx, hy, rfl, hmine', hR'⟩ :=
      h.exists_end (s := (o, store)) (t := (o, store')) ⟨rfl, hmine, hR⟩
    dsimp only
    rw [hx, hy]
    exact ⟨rfl, rfl, hs.putBack hmine', hR'⟩

variable [Store σ] [Store τ] (hrelated : Store.Related A R)

include hrelated

theorem parallel_invokeCopy (registry : Registry) (op : Operation) (hid : A id) (e : Envelope) :
    Run.Parallel (Over A R) (invokeCopy registry op id e) (invokeCopy registry op id e) := by
  rintro ⟨_, store⟩ ⟨s, store'⟩ ⟨rfl, hs, hR⟩
  cases ho : s.object? id with
  | none =>
    unfold invokeCopy
    dsimp only
    rw [ho]
    exact ⟨rfl, rfl, hs, hR⟩
  | some o =>
    have hmine : A o.identity := (hs.keyed id o ho).symm ▸ hid
    obtain ⟨out, x, y, hx, hy, hscenes⟩ := (op.parallel hrelated registry e).exists_end
      (s := ⟨o, store, false⟩) (t := ⟨o, store', false⟩) ⟨⟨rfl, hmine, hR⟩, rfl⟩
    rw [invokeCopy_of_object ho, invokeCopy_of_object ho, hx, hy]
    cases out with
    | ok bytes =>
      refine ⟨rfl, ?_, hs.putBack hscenes.objects.mine, hscenes.objects.stores⟩
      exact congrArg s.putBack hscenes.objects.object
    | fail err => exact ⟨rfl, rfl, hs, hscenes.objects.stores⟩
    | crash => exact ⟨rfl, rfl, hs, hscenes.objects.stores⟩

theorem parallel_invokeLocal (c : Catalog) (hid : A id) (method : String) (arg : Value) :
    Run.Parallel (Over A R) (invokeLocal c id method arg) (invokeLocal c id method arg) :=
  .bind (.ofExcept _) fun op => .bind (.ofExcept _) fun _ =>
    .bind (parallel_invokeCopy hrelated c.registry op hid _) fun _ => .ofExcept _

theorem parallel_flushEach (report : CommitReport) (ids : List Identity) :
    Run.Parallel (Over A R) (flushEach report ids) (flushEach report ids) := by
  induction ids generalizing report with
  | nil => exact fun _ _ h => ⟨rfl, h⟩
  | cons id ids ih =>
    rintro ⟨_, store⟩ ⟨s, store'⟩ ⟨rfl, hs, hR⟩
    unfold flushEach
    dsimp only
    cases ho : s.object? id with
    | none => exact ih report ⟨rfl, hs, hR⟩
    | some o =>
      dsimp only
      cases hd : o.isDirty with
      | false => exact ih report ⟨rfl, hs, hR⟩
      | true =>
        have hmine : A o.identity := (hs.keyed id o ho).symm ▸ hs.dirty id o ho hd
        obtain ⟨out, ⟨_, t⟩, ⟨o', t'⟩, hx, hy, rfl, hmine', hR'⟩ :=
          (Resident.parallel_flush hrelated).exists_end
            (s := (o, store)) (t := (o, store')) ⟨rfl, hmine, hR⟩
        rw [hx, hy]
        cases out with
        | ok written => exact ih _ ⟨rfl, hs.putBack hmine', hR'⟩
        | fail e => exact ih _ ⟨rfl, hs.putBack hmine', hR'⟩
        | crash => exact ⟨rfl, rfl, hs.putBack hmine', hR'⟩

theorem parallel_deleteEach (report : CommitReport) {kept : KeySet Identity}
    (hkept : ∀ id, kept.contains id = true → A id) {ids : List Identity} (hids : ∀ id ∈ ids, A id) :
    Run.Parallel (Over A R) (deleteEach report kept ids) (deleteEach report kept ids) := by
  induction ids generalizing report kept with
  | nil =>
    rintro ⟨_, store⟩ ⟨s, store'⟩ ⟨rfl, hs, hR⟩
    exact ⟨rfl, rfl, ⟨hs.keyed, hs.dirty, hkept⟩, hR⟩
  | cons id ids ih =>
    rintro ⟨_, store⟩ ⟨s, store'⟩ ⟨rfl, hs, hR⟩
    obtain ⟨hid, hids⟩ := List.forall_mem_cons.1 hids
    obtain ⟨out, t, t', hx, hy, hR'⟩ := (hrelated.delete hid).exists_end hR
    unfold deleteEach
    dsimp only
    rw [hx, hy]
    cases out with
    | ok existed => exact ih _ hkept hids ⟨rfl, hs, hR'⟩
    | fail e => exact ih _ (forall_contains_add hid hkept) hids ⟨rfl, hs, hR'⟩
    | crash => exact ⟨rfl, rfl, hs, hR'⟩

theorem parallel_commit : Run.Parallel (Over A R) commit commit := by
  rintro ⟨_, store⟩ ⟨s, store'⟩ ⟨rfl, hs, hR⟩
  obtain ⟨out, ⟨_, t⟩, ⟨s', t'⟩, hx, hy, rfl, hs', hR'⟩ :=
    (parallel_flushEach hrelated .empty s.objects.keys).exists_end
      (s := (s, store)) (t := (s, store')) ⟨rfl, hs, hR⟩
  unfold commit
  dsimp only
  rw [hx, hy]
  cases out with
  | ok report =>
    have hnone : ∀ id, Table.contains ({} : KeySet Identity) id = true → A id :=
      fun _ h => nomatch h
    exact parallel_deleteEach hrelated report hnone
      (fun id hid => hs'.deletions id (Table.mem_keys.1 hid))
      ⟨rfl, ⟨hs'.keyed, hs'.dirty, hnone⟩, hR'⟩
  | fail e => exact e.elim
  | crash => exact ⟨rfl, rfl, hs', hR'⟩

theorem Step.parallel_answer (c : Catalog) (localOnly : Bool) {step : Step} (h : step.Within A) :
    Run.Parallel (Over A R) (step.answer c localOnly) (step.answer c localOnly) := by
  cases step with
  | create fresh classId id? =>
    obtain ⟨id, rfl, hid⟩ := h
    refine parallel_change fun s a s' hs hanswer => ?_
    obtain ⟨⟨id', s''⟩, hcreate, heq⟩ := Success.map_eq_ok.1 hanswer
    cases heq
    obtain ⟨hgiven, cls, _, rfl⟩ := create_eq_ok hcreate
    rw [identityFor_some_eq_ok hgiven]
    exact hs.created hid cls
  | load classId id =>
    refine parallel_change fun s a s' hs hanswer => ?_
    obtain ⟨s'', hload, heq⟩ := Success.map_eq_ok.1 hanswer
    cases heq
    rcases load_eq_ok hload with ⟨_, rfl⟩ | ⟨cls, _, _, rfl⟩
    · exact hs
    · exact hs.insert (o := .loaded id cls) h hs.deletions
  | delete id =>
    refine parallel_change fun s a s' hs hdelete => ?_
    cases hdelete
    exact hs.delete h
  | work id r => exact parallel_onObject h (r.parallel hrelated c.registry)
  | invoke id method arg => exact parallel_invokeLocal hrelated c h method arg
  | commit => exact (parallel_commit hrelated).mapError _

end Session
end ObjectSpace
