import ObjectSpace.Proofs.Object.Change
import ObjectSpace.Proofs.Session.Keyed
import ObjectSpace.Proofs.Session.Passes
import ObjectSpace.Session.Call

/-!
# Steps of a session

What can be done with a session, one step after the other, over any store. A step makes one object,
brings one in or takes one out, or it works on the objects that are there: it changes their fields
and may withdraw deletions, but neither adds nor removes an object.
-/

namespace ObjectSpace

namespace Session

open Success
open Resident (Change Changes)

/-- What can be done with a session. -/
inductive Step where
  | create (fresh : UInt64) (classId : String) (id? : Option Identity)
  | load (classId : String) (id : Identity)
  | delete (id : Identity)
  | work (id : Identity) (r : Request)
  | invoke (id : Identity) (method : String) (arg : Value)
  | commit

variable {σ : Type} [Store σ]

/-- The session and the store behind a step, whether it succeeds or not. -/
def perform (c : Catalog) (localOnly : Bool) : Step → Session × σ → Session × σ
  | .create fresh classId id?, (s, store) =>
    match create c.registry localOnly fresh s classId id? with
    | .ok (_, s) => (s, store)
    | .error _ => (s, store)
  | .load classId id, (s, store) =>
    match load c.registry s classId id with
    | .ok s => (s, store)
    | .error _ => (s, store)
  | .delete id, (s, store) => ((s.delete id).2, store)
  | .work id r, t => (onObject id (r.run c.registry) t).2
  | .invoke id method arg, t => (invokeLocal c id method arg t).2
  | .commit, t => (Session.commit t).2

def run (c : Catalog) (localOnly : Bool) (steps : List Step) (t : Session × σ) : Session × σ :=
  steps.foldl (fun t step => perform c localOnly step t) t

/-! ## Working on what is there -/

/-- The session holds the same objects, which may have been worked on, and has no more to delete. -/
structure Works (s s' : Session) : Prop where
  objects : ∀ id, Option.Rel Changes (s.object? id) (s'.object? id)
  deletions : ∀ id, s'.deletions.contains id = true → s.deletions.contains id = true

variable {s s' s'' : Session} {store : σ}

theorem Works.refl (s : Session) : Works s s where
  objects id := by
    cases s.object? id with
    | none => exact .none
    | some o => exact .some .refl
  deletions _ h := h

theorem Works.trans (h : Works s s') (h' : Works s' s'') : Works s s'' where
  objects id := by
    have hid := h.objects id
    have hid' := h'.objects id
    generalize s'.object? id = o? at hid hid'
    generalize s''.object? id = o'? at hid'
    generalize s.object? id = start? at hid ⊢
    cases hid with
    | none => exact hid'
    | some ho =>
      cases hid' with
      | some ho' => exact .some (ho.trans ho')
  deletions id hid := h.deletions id (h'.deletions id hid)

theorem Works.isResident (h : Works s s') (id : Identity) : s'.isResident id = s.isResident id := by
  have hid := h.objects id
  change (s'.object? id).isSome = (s.object? id).isSome
  generalize s'.object? id = o'? at hid
  generalize s.object? id = o? at hid
  cases hid <;> rfl

theorem Works.exists_object (h : Works s s') {id : Identity} {o' : Resident}
    (ho' : s'.object? id = some o') : ∃ o, s.object? id = some o ∧ Changes o o' := by
  have hid := h.objects id
  rw [ho'] at hid
  cases ho : s.object? id with
  | none =>
    rw [ho] at hid
    cases hid
  | some o =>
    rw [ho] at hid
    cases hid with
    | some hchanges => exact ⟨o, rfl, hchanges⟩

theorem Works.keyed (h : Works s s') (hkeyed : s.Keyed) : s'.Keyed := by
  intro id o' ho'
  obtain ⟨o, ho, hchanges⟩ := h.exists_object ho'
  exact hchanges.identity.trans (hkeyed id o ho)

theorem isResident_insert (s : Session) (deletions : KeySet Identity) (id id' : Identity)
    (o : Resident) : Session.isResident { s with
      objects := s.objects.insert id o, deletions := deletions } id' =
        (decide (id' = id) || s.isResident id') := by
  change ((s.objects.insert id o).get? id').isSome = _
  rw [Table.get?_insert]
  split
  case isTrue h => rw [decide_eq_true h, Bool.true_or, Option.isSome_some]
  case isFalse h =>
    rw [decide_eq_false h, Bool.false_or]
    rfl

theorem Works.putBack (hkeyed : s.Keyed) {id : Identity} {o o' : Resident}
    (ho : s.object? id = some o) (h : Changes o o') : Works s (s.putBack o') where
  objects id' := by
    have hid : o'.identity = id := h.identity.trans (hkeyed id o ho)
    rw [object?_putBack, hid]
    split
    case isTrue heq =>
      rw [heq, ho]
      exact .some h
    case isFalse => exact (Works.refl s).objects id'
  deletions _ hid := hid

/-- One object was worked on, if anything was. -/
inductive WorksOn (R : Resident → Resident → Prop) (id : Identity) (s : Session) : Session → Prop
  | stay : WorksOn R id s s
  | putBack {o o' : Resident} (ho : s.object? id = some o) (h : R o o') :
    WorksOn R id s (s.putBack o')

variable {R : Resident → Resident → Prop} {id : Identity}

theorem WorksOn.works (hkeyed : s.Keyed) (h : WorksOn Changes id s s') : Works s s' := by
  cases h with
  | stay => exact .refl s
  | putBack ho h => exact .putBack hkeyed ho h

omit [Store σ] in
theorem worksOn_onObject {α : Type} {r : Run (Resident × σ) StateError α}
    (h : ∀ o, R o (r (o, store)).2.1) : WorksOn R id s (onObject id r (s, store)).2.1 := by
  unfold onObject
  dsimp only
  split
  · exact .stay
  case h_2 o ho => exact .putBack ho (h o)

theorem worksOn_invokeCopy {registry : Registry} {op : Operation} {e : Envelope}
    (h : ∀ o, R o (op.tryInvoke registry e ⟨o, store, false⟩).2.object) :
    WorksOn R id s (invokeCopy registry op id e (s, store)).2.1 := by
  unfold invokeCopy
  dsimp only
  split
  · exact .stay
  case h_2 o ho =>
    have hop := h o
    split
    case h_1 heq =>
      rw [heq] at hop
      exact .putBack ho hop
    · exact .stay
    · exact .stay

theorem worksOn_invokeLocal {c : Catalog} {method : String} (arg : Value)
    (h : ∀ op e o, c.operation id.classId method = .ok op →
      R o (op.tryInvoke c.registry e ⟨o, store, false⟩).2.object) :
    WorksOn R id s (invokeLocal c id method arg (s, store)).2.1 := by
  unfold invokeLocal
  rw [Run.bind_apply]
  cases hop : c.operation id.classId method with
  | error e => exact .stay
  | ok op =>
    dsimp only [Except.mapError, Run.ofExcept, Run.ofOutcome, Outcome.ofExcept]
    rw [Run.bind_apply]
    cases op.method.encodeCall arg with
    | error e => exact .stay
    | ok payload =>
      dsimp only [Except.mapError, Run.ofExcept, Run.ofOutcome, Outcome.ofExcept]
      have hcopy : WorksOn R id s
          (invokeCopy c.registry op id ⟨method, payload, {}⟩ (s, store)).2.1 :=
        worksOn_invokeCopy fun o => h op _ o hop
      rw [Run.bind_apply]
      rcases hr : invokeCopy c.registry op id ⟨method, payload, {}⟩ (s, store) with
        ⟨out, s', store'⟩
      rw [hr] at hcopy
      cases out <;> exact hcopy

theorem works_flushEach (hkeyed : s.Keyed) (store : σ) (report : CommitReport)
    (ids : List Identity) : Works s (flushEach report ids (s, store)).2.1 := by
  induction ids generalizing s store report with
  | nil => exact .refl s
  | cons id ids ih =>
    rcases flushEach_cases s store report id ids with ⟨_, hround⟩ | ⟨o, ho, hround⟩
    · rw [hround]
      exact ih hkeyed store report
    · have hflush : Change o (Resident.flush (o, store)).2.1 := .flush
      have hput := Works.putBack hkeyed ho (.single hflush)
      rcases hround with ⟨_, hround⟩ | ⟨report', hround, _⟩
      · rw [hround]
        exact hput
      · rw [hround]
        exact hput.trans (ih (hput.keyed hkeyed) _ _)

/-- Deletions that fail are queued again, and no others. -/
theorem deleteEach_keeps (store : σ) (report : CommitReport) (kept : KeySet Identity)
    (ids : List Identity) :
    (deleteEach report kept ids (s, store)).2.1.objects = s.objects ∧
    ∀ id, (deleteEach report kept ids (s, store)).2.1.deletions.contains id = true →
      s.deletions.contains id = true ∨ Table.contains kept id = true ∨ id ∈ ids := by
  induction ids generalizing store report kept with
  | nil => exact ⟨rfl, fun id h => .inr (.inl h)⟩
  | cons id ids ih =>
    rcases deleteEach_cases s store report kept id ids with
      ⟨_, store', _, hround⟩ | ⟨report', hround, _⟩ | ⟨_, hround⟩ <;> rw [hround]
    · obtain ⟨hobjects, hdeletions⟩ := ih store' report.addDeleted kept
      refine ⟨hobjects, fun id' h => (hdeletions id' h).imp_right (Or.imp_right ?_)⟩
      exact List.mem_cons_of_mem id
    · obtain ⟨hobjects, hdeletions⟩ := ih (Store.delete id store).2 report' (kept.add id)
      refine ⟨hobjects, fun id' h => ?_⟩
      rcases hdeletions id' h with h | h | h
      · exact .inl h
      · rw [KeySet.contains_add, Bool.or_eq_true] at h
        rcases h with h | h
        · exact .inr (.inr (List.mem_cons.2 (.inl (of_decide_eq_true h))))
        · exact .inr (.inl h)
      · exact .inr (.inr (List.mem_cons_of_mem id h))
    · exact ⟨rfl, fun id' h => .inl h⟩

theorem works_deleteEach (report : CommitReport) :
    Works s (deleteEach report {} s.deletions.keys ({ s with deletions := {} }, store)).2.1 := by
  obtain ⟨hobjects, hdeletions⟩ := deleteEach_keeps (s := { s with deletions := {} }) store
    report {} s.deletions.keys
  constructor
  · intro id
    unfold Session.object?
    rw [hobjects]
    exact (Works.refl s).objects id
  · intro id hid
    rcases hdeletions id hid with h | h | h
    · cases h
    · cases h
    · exact Table.mem_keys.1 h

theorem works_commit (hkeyed : s.Keyed) : Works s (Session.commit (s, store)).2.1 := by
  unfold Session.commit
  dsimp only
  have hflush := works_flushEach hkeyed store .empty s.objects.keys
  split
  case h_1 heq =>
    rw [heq] at hflush
    exact hflush.trans (works_deleteEach _)
  case h_2 heq =>
    rw [heq] at hflush
    exact hflush

/-! ## What a step leads to -/

/-- What a step leads to. -/
inductive Transition (r : Registry) (s : Session) : Step → Session → Prop where
  | work {step : Step} {s' : Session} (h : Works s s') : Transition r s step s'
  | create {fresh : UInt64} {classId : String} {id? : Option Identity} {id : Identity} {c : Class}
      (hc : r.find id.classId = .ok c) :
      Transition r s (.create fresh classId id?) { s with
        objects := s.objects.insert id (.created id c)
        deletions := s.deletions.erase id }
  | load {id : Identity} {c : Class} (hc : r.find id.classId = .ok c) :
      Transition r s (.load id.classId id) { s with objects := s.objects.insert id (.loaded id c) }
  | delete {id : Identity} : Transition r s (.delete id) (s.delete id).2

theorem classId_of_checkClass {id : Identity} {classId : String} {u : Unit}
    (h : checkClass id classId = .ok u) : id.classId = classId := by
  unfold checkClass at h
  split at h
  · assumption
  · cases h

theorem classId_of_identityFor {localOnly : Bool} {fresh : UInt64} {classId : String}
    {id? : Option Identity} {id : Identity}
    (h : s.identityFor localOnly fresh classId id? = .ok id) : id.classId = classId := by
  unfold identityFor at h
  split at h
  · obtain ⟨u, hclass, h⟩ := bind_eq_ok.1 h
    obtain ⟨_, _, h⟩ := bind_eq_ok.1 h
    cases h
    exact classId_of_checkClass hclass
  · split at h <;> cases h
    rfl

/-- An object is made under the identity that is found for it. -/
theorem create_eq_ok {r : Registry} {localOnly : Bool} {fresh : UInt64} {classId : String}
    {id? : Option Identity} {id : Identity}
    (h : s.create r localOnly fresh classId id? = .ok (id, s')) :
    s.identityFor localOnly fresh classId id? = .ok id ∧ ∃ c, r.find classId = .ok c ∧
      s' = { s with
        objects := s.objects.insert id (.created id c), deletions := s.deletions.erase id } := by
  obtain ⟨c, hc, h⟩ := bind_eq_ok.1 h
  obtain ⟨id', hid, h⟩ := bind_eq_ok.1 h
  cases h
  exact ⟨hid, c, mapError_eq_ok.1 hc, rfl⟩

theorem identityFor_some_eq_ok {localOnly : Bool} {fresh : UInt64} {classId : String}
    {id id' : Identity} (h : s.identityFor localOnly fresh classId (some id) = .ok id') :
    id' = id := by
  obtain ⟨_, _, h⟩ := bind_eq_ok.1 h
  obtain ⟨_, _, h⟩ := bind_eq_ok.1 h
  cases h
  rfl

/-- An object that is not there is brought in. -/
theorem load_absent {r : Registry} {id : Identity} {c : Class} (hid : id.validate = .ok ())
    (hc : r.find id.classId = .ok c) (hs : s.isResident id = false) :
    s.load r id.classId id = .ok { s with objects := s.objects.insert id (.loaded id c) } := by
  unfold load checkClass
  rw [if_pos rfl, hid, hs, hc]
  rfl

/-- An object is there already, or it is brought in. -/
theorem load_eq_ok {r : Registry} {classId : String} {id : Identity}
    (h : s.load r classId id = .ok s') : (s.isResident id = true ∧ s' = s) ∨
      ∃ c, s.isResident id = false ∧ r.find classId = .ok c ∧
        s' = { s with objects := s.objects.insert id (.loaded id c) } := by
  obtain ⟨_, _, h⟩ := bind_eq_ok.1 h
  obtain ⟨_, _, h⟩ := bind_eq_ok.1 h
  split at h
  case isTrue hresident =>
    cases h
    exact .inl ⟨hresident, rfl⟩
  case isFalse hresident =>
    obtain ⟨c, hc, h⟩ := bind_eq_ok.1 h
    cases h
    exact .inr ⟨c, Bool.eq_false_iff.2 hresident, mapError_eq_ok.1 hc, rfl⟩

theorem transition_perform (c : Catalog) (localOnly : Bool) (hkeyed : s.Keyed) (store : σ)
    (step : Step) :
    Transition c.registry s step (perform c localOnly step (s, store)).1 := by
  cases step with
  | create fresh classId id? =>
    unfold perform
    dsimp only
    split
    case h_1 hs =>
      obtain ⟨cls, hcls, hs⟩ := bind_eq_ok.1 hs
      obtain ⟨id, hid, hs⟩ := bind_eq_ok.1 hs
      cases hs
      refine .create ?_
      rw [classId_of_identityFor hid]
      exact mapError_eq_ok.1 hcls
    case h_2 => exact .work (.refl s)
  | load classId id =>
    unfold perform
    dsimp only
    split
    case h_1 hs =>
      obtain ⟨u, hclass, hs⟩ := bind_eq_ok.1 hs
      obtain ⟨_, _, hs⟩ := bind_eq_ok.1 hs
      split at hs
      · cases hs
        exact .work (.refl s)
      · obtain ⟨cls, hcls, hs⟩ := bind_eq_ok.1 hs
        cases hs
        obtain rfl := classId_of_checkClass hclass
        exact .load (mapError_eq_ok.1 hcls)
    case h_2 => exact .work (.refl s)
  | delete id => exact .delete
  | work id r =>
    exact .work ((worksOn_onObject fun o => .single (r.change c.registry store)).works hkeyed)
  | invoke id method arg =>
    exact .work ((worksOn_invokeLocal arg fun op e o _ => op.changes c.registry e _).works hkeyed)
  | commit => exact .work (works_commit hkeyed)

theorem Transition.keyed {r : Registry} {step : Step} (h : Transition r s step s')
    (hkeyed : s.Keyed) : s'.Keyed := by
  cases h with
  | work h => exact h.keyed hkeyed
  | @create _ _ _ id c hc => exact hkeyed.insert (o := .created id c) rfl _
  | @load id c hc => exact hkeyed.insert (o := .loaded id c) rfl _
  | delete => exact hkeyed.delete _

end Session
end ObjectSpace
