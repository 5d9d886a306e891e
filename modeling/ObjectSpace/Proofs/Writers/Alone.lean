import ObjectSpace.Proofs.Dispatch.Race
import ObjectSpace.Proofs.Reference.Proxy
import ObjectSpace.Proofs.Session.Call
import ObjectSpace.Proofs.Writers.Program

/-!
# Writers that are left alone

A program that nobody comes between does what the whole it stands for does: the commit or the call
of a session, the worker of a call from afar, or a write through an accessor.
-/

namespace ObjectSpace

variable {σ α β : Type}

/-! ## The object before a writer -/

namespace Desk

/-- The object is there, under its own identity. -/
structure Has (d : Desk) (p : Place) (o : Resident) : Prop where
  object : d.object? p = some o
  named : ∀ id, p = .session id → o.identity = id

variable {d : Desk} {p : Place} {o o' o'' : Resident}

theorem Has.putBack (h : d.Has p o) (hid : o'.identity = o.identity) :
    (d.putBack o' p).Has p o' where
  object := by
    cases p with
    | session id =>
      refine (Session.object?_putBack _ _ _).trans (if_pos ?_)
      rw [hid, h.named id rfl]
    | copy => rfl
  named id hp := hid.trans (h.named id hp)

theorem Has.putBack_self (h : d.Has p o) : d.putBack o p = d := by
  obtain ⟨s, copy⟩ := d
  cases p with
  | session id =>
    have hobjects : s.objects.insert o.identity o = s.objects := by
      refine Table.ext_get? fun id' => ?_
      rw [Table.get?_insert]
      split
      case isTrue hid =>
        rw [hid, h.named id rfl]
        exact h.object.symm
      case isFalse => rfl
    unfold Desk.putBack Session.putBack
    dsimp only
    rw [hobjects]
  | copy => exact congrArg (Desk.mk s) h.object.symm

theorem putBack_putBack (hid : o''.identity = o'.identity) :
    (d.putBack o' p).putBack o'' p = d.putBack o'' p := by
  cases p with
  | session id =>
    have hobjects : (d.session.objects.insert o'.identity o').insert o''.identity o'' =
        d.session.objects.insert o''.identity o'' := by
      refine Table.ext_get? fun id' => ?_
      rw [Table.get?_insert, Table.get?_insert, Table.get?_insert, hid]
      split <;> rfl
    unfold putBack Session.putBack
    dsimp only
    rw [hobjects]
  | copy => rfl

/-- What has become of the session, with the rest of the desk. -/
def behind (d : Desk) (x : Outcome Empty α × Session × σ) : Outcome SessionError α × Desk × σ :=
  (x.1.mapError nofun, { d with session := x.2.1 }, x.2.2)

end Desk

namespace Program

variable [Store σ] {registry : Registry} {localOnly : Bool} {d : Desk} {store : σ} {p : Place}
  {o : Resident}

theorem run_perform (m : Move) (next : m.Answer → Program α) (t : Desk × σ) :
    (perform m next).run registry localOnly t = match m.run registry localOnly t with
      | (.ok a, t) => (next a).run registry localOnly t
      | (.crash, t) => (.crash, t) := by
  rcases hmove : m.run registry localOnly t with ⟨out, t'⟩
  cases out with
  | ok a => simp only [run, hmove]
  | fail e => exact e.elim
  | crash => simp only [run, hmove]

theorem run_andThen (q : Program α) (next : Except SessionError α → Program β) (t : Desk × σ) :
    (q.andThen next).run registry localOnly t = match q.run registry localOnly t with
      | (.ok a, t) => (next (.ok a)).run registry localOnly t
      | (.fail e, t) => (next (.error e)).run registry localOnly t
      | (.crash, t) => (.crash, t) := by
  induction q generalizing t with
  | done a => rfl
  | fail e => rfl
  | crash => rfl
  | perform m rest ih =>
    unfold andThen
    rw [run_perform, run_perform]
    rcases m.run registry localOnly t with ⟨out, t'⟩
    cases out with
    | ok a => exact ih a t'
    | fail e => exact e.elim
    | crash => rfl

theorem run_ofExcept (x : Except SessionError α) (t : Desk × σ) :
    (ofExcept x).run registry localOnly t = (.ofExcept x, t) := by
  cases x <;> rfl

theorem askAt_of_has (h : d.Has p o) (r : Request) :
    Move.askAt registry p r (d, store) = match r.run registry (o, store) with
      | (.ok a, (o, store)) => (.ok (some (.ok a)), (d.putBack o p, store))
      | (.fail e, (o, store)) => (.ok (some (.error e)), (d.putBack o p, store))
      | (.crash, (o, store)) => (.crash, (d.putBack o p, store)) := by
  have hobject := h.object
  unfold Move.askAt
  dsimp only
  generalize d.object? p = o? at hobject ⊢
  subst hobject
  rfl

theorem identity_run (registry : Registry) (a : Action α) (scene : Scene σ) :
    (a.run registry scene).2.object.identity = scene.object.identity :=
  (a.changes registry scene).identity

/-- An action is asked one request after the other. -/
theorem run_ofAction (h : d.Has p o) (a : Action α) (late : Bool) :
    (ofAction p a).run registry localOnly (d, store) = match a.run registry ⟨o, store, late⟩ with
      | (.ok v, scene) => (.ok (.ok v), (d.putBack scene.object p, scene.store))
      | (.fail e, scene) => (.ok (.error e), (d.putBack scene.object p, scene.store))
      | (.crash, scene) => (.crash, (d.putBack scene.object p, scene.store)) := by
  induction a generalizing d o store late with
  | done v =>
    unfold Action.run
    dsimp only
    rw [h.putBack_self]
    rfl
  | fail e =>
    unfold Action.run
    dsimp only
    rw [h.putBack_self]
    rfl
  | crash =>
    unfold Action.run
    dsimp only
    rw [h.putBack_self]
    rfl
  | pause rest ih => exact ih h true
  | perform r next ih =>
    have hchange := r.change (o := o) registry store
    have hmove : Move.run registry localOnly (.ask p r) (d, store) = _ := askAt_of_has h r
    have hrest : ∀ {o' : Resident} {store' : σ}, o'.identity = o.identity → ∀ x,
        (ofAction p (next x)).run registry localOnly (d.putBack o' p, store') =
          match (next x).run registry ⟨o', store', late⟩ with
          | (.ok v, scene) => (.ok (.ok v), (d.putBack scene.object p, scene.store))
          | (.fail e, scene) => (.ok (.error e), (d.putBack scene.object p, scene.store))
          | (.crash, scene) => (.crash, (d.putBack scene.object p, scene.store)) := by
      intro o' store' hid x
      have hidentity := identity_run registry (next x) ⟨o', store', late⟩
      rw [ih x (h.putBack hid) late]
      rcases hrun : (next x).run registry ⟨o', store', late⟩ with ⟨out, scene⟩
      rw [hrun] at hidentity
      cases out <;> dsimp only <;> rw [Desk.putBack_putBack hidentity]
    unfold ofAction Action.run Scene.onObject
    rw [run_perform, hmove]
    dsimp only
    rcases hr : r.run registry (o, store) with ⟨out, o', store'⟩
    rw [hr] at hchange
    cases out with
    | ok answer => exact hrest hchange.identity (.ok answer)
    | fail e => exact hrest hchange.identity (.error e)
    | crash => rfl

/-- The object behind an invocation is put back whatever comes of it. -/
theorem run_invoke (h : d.Has p o) (op : Operation) (e : Envelope) (late : Bool) :
    (invoke p op o.identity e).run registry localOnly (d, store) =
      match op.tryInvoke registry e ⟨o, store, late⟩ with
      | (.ok bytes, scene) => (.ok (.ok bytes), (d.putBack scene.object p, scene.store))
      | (.fail err, scene) => (.ok (.error err), (d.putBack scene.object p, scene.store))
      | (.crash, scene) => (.crash, (d.putBack scene.object p, scene.store)) := by
  unfold invoke
  rw [Operation.tryInvoke_apply]
  cases op.decodeArguments e.payload with
  | error err =>
    dsimp only
    rw [h.putBack_self]
    rfl
  | ok args =>
    dsimp only
    rw [run_andThen, run_ofAction h _ late]
    rcases (op.body args ⟨o.identity, e.method, e.options⟩).run registry ⟨o, store, late⟩ with
      ⟨out, scene⟩
    cases out with
    | ok v =>
      dsimp only
      rw [run]
      cases op.encodeResult v <;> rfl
    | fail err => rfl
    | crash => rfl

/-! ## Commits -/

theorem run_flushEach (hkeyed : d.session.Keyed) (report : CommitReport) (ids : List Identity) :
    (flushEach report ids).run registry localOnly (d, store) =
      d.behind (Session.flushEach report ids (d.session, store)) := by
  induction ids generalizing d store report with
  | nil => rfl
  | cons id ids ih =>
    unfold flushEach Session.flushEach
    rw [run_perform]
    dsimp only [Move.run]
    cases ho : d.session.object? id with
    | none => exact ih hkeyed report
    | some o =>
      dsimp only
      cases hd : o.isDirty with
      | false => exact ih hkeyed report
      | true =>
        have hhas : d.Has (.session id) o := by
          refine ⟨ho, fun id' hid => ?_⟩
          cases hid
          exact hkeyed id o ho
        have hmove : Move.run registry localOnly (.ask (.session id) .flush) (d, store) = _ :=
          askAt_of_has hhas .flush
        have hanswer : Request.flush.run registry (o, store) = Resident.flush (o, store) := rfl
        rw [if_pos rfl, if_pos rfl, run_perform, hmove, hanswer]
        rcases Resident.flush (o, store) with ⟨out, o', store'⟩
        have hput : (d.putBack o' (.session id)).session.Keyed := hkeyed.putBack o'
        cases out with
        | ok written => exact ih hput _
        | fail e => exact ih hput _
        | crash => rfl

theorem run_commit (hkeyed : d.session.Keyed) (hdeletions : d.session.deletions = {}) :
    commit.run registry localOnly (d, store) = d.behind (Session.commit (d.session, store)) := by
  have hlook : commit.run registry localOnly (d, store) =
    (flushEach .empty d.session.objects.keys).run registry localOnly (d, store) := rfl
  have hworks := Session.works_flushEach hkeyed store .empty d.session.objects.keys
  rw [hlook, run_flushEach hkeyed]
  unfold Session.commit
  dsimp only
  rcases hflush : Session.flushEach .empty d.session.objects.keys (d.session, store) with
    ⟨out, s', store'⟩
  rw [hflush] at hworks
  cases out with
  | ok report =>
    have hnone : s'.deletions = {} := KeySet.ext_contains fun id => by
      rw [Bool.eq_iff_iff]
      exact ⟨fun h => hdeletions ▸ hworks.deletions id h, fun h => nomatch h⟩
    obtain ⟨partition, objects, deletions⟩ := s'
    obtain rfl : deletions = {} := hnone
    rfl
  | fail e => exact e.elim
  | crash => rfl

/-! ## Calls within a session -/

theorem run_invokeLocal (c : Catalog) (id : Identity) (method : String) (arg : Value) :
    let x := (invokeLocal c id method arg).run c.registry localOnly (d, store)
    (x.1, x.2.1.session, x.2.2) = Session.invokeLocal c id method arg (d.session, store) := by
  unfold invokeLocal
  rw [Session.invokeLocal_apply]
  cases c.operation id.classId method with
  | error e => rfl
  | ok op =>
    dsimp only
    cases op.method.encodeCall arg with
    | error e => rfl
    | ok payload =>
      dsimp only
      rw [run_perform]
      dsimp only [Move.run]
      cases ho : d.session.object? id with
      | none =>
        unfold Session.invokeCopy
        dsimp only
        rw [ho]
        rfl
      | some o =>
        have hhas : Desk.Has { d with copy := some o } .copy o := ⟨rfl, nofun⟩
        dsimp only
        rw [run_andThen, run_invoke hhas op ⟨method, payload, {}⟩ false,
          Session.invokeCopy_of_object ho]
        rcases op.tryInvoke c.registry ⟨method, payload, {}⟩ ⟨o, store, false⟩ with ⟨out, scene⟩
        cases out with
        | ok bytes =>
          dsimp only
          rw [run_perform]
          dsimp only [Move.run, Desk.putBack]
          rw [run_ofExcept]
        | fail err => rfl
        | crash => rfl

/-! ## Calls from afar -/

section

variable {job : Job} {isOpen : Bool}

/-- How a call goes on behind its body: through the gate, or back to a caller that has gone. -/
def events (isOpen : Bool) : List Event :=
  if isOpen then [.work, .work] else [.deadline, .work]

theorem run_finished (r : Race σ) {out : Outcome SessionError ByteArray}
    (hworker : r.worker = .finished out) :
    let r' := Race.run job r (events isOpen)
    r'.worker = .finished out ∧ r'.session = r.session ∧ r'.store = r.store := by
  have hwork : ∀ r : Race σ, r.worker = .finished out → r.work job = r := by
    intro r h
    unfold Race.work
    rw [h]
  have hdeadline : (r.deadline job).worker = r.worker ∧ (r.deadline job).session = r.session ∧
      (r.deadline job).store = r.store := by
    unfold Race.deadline
    split <;> exact ⟨rfl, rfl, rfl⟩
  cases isOpen with
  | true =>
    change ((r.work job).work job).worker = _ ∧ ((r.work job).work job).session = _ ∧
      ((r.work job).work job).store = _
    rw [hwork r hworker, hwork r hworker]
    exact ⟨hworker, rfl, rfl⟩
  | false =>
    change ((r.deadline job).work job).worker = _ ∧ ((r.deadline job).work job).session = _ ∧
      ((r.deadline job).work job).store = _
    rw [hwork _ (hdeadline.1.trans hworker)]
    exact ⟨hdeadline.1.trans hworker, hdeadline.2⟩

theorem run_passGate {s : Session} (hkeyed : s.Keyed) (hdeletions : s.deletions = {})
    (payload : ByteArray) (late : Bool) (copy : Option Resident) :
    let x := (passGate job isOpen payload).run registry localOnly (⟨s, copy⟩, store)
    let r := Race.run job ⟨.running, .gate payload, s, store, late, none⟩ (events isOpen)
    r.worker = .finished x.1 ∧ r.session = x.2.1.session ∧ r.store = x.2.2 := by
  cases isOpen with
  | false => exact ⟨rfl, rfl, rfl⟩
  | true =>
    have hrace : Race.run job ⟨.running, .gate payload, s, store, late, none⟩ (events true) =
      Race.commit payload ⟨.committing, .commit payload, s, store, late, none⟩ := rfl
    have hcommit : commit.run registry localOnly (⟨s, copy⟩, store) = _ :=
      run_commit hkeyed hdeletions
    rw [hrace]
    unfold passGate Race.commit
    rw [if_pos rfl, run_andThen, hcommit]
    unfold Desk.behind
    dsimp only
    rcases Session.commit (s, store) with ⟨out, s', store'⟩
    cases out with
    | ok report =>
      dsimp only [Outcome.mapError]
      rw [run_ofExcept]
      exact ⟨rfl, rfl, rfl⟩
    | fail e => exact e.elim
    | crash => exact ⟨rfl, rfl, rfl⟩

end

/-- The worker of a call, which passes the gate unless the caller has gone. -/
theorem run_serve (job : Job) (isOpen : Bool) (store : σ) :
    let x := (serve job isOpen).run job.registry localOnly (.empty job.target.partition, store)
    let r := Race.run job (.start job store) (.work :: .work :: events isOpen)
    r.worker = .finished x.1 ∧ r.session = x.2.1.session ∧ r.store = x.2.2 := by
  have hrun : Race.run job (.start job store) (.work :: .work :: events isOpen) =
    Race.run job ((Race.load job (.start job store)).work job) (events isOpen) := rfl
  unfold serve
  rw [run_perform, hrun]
  unfold Move.run Race.load
  dsimp only [Desk.empty, Race.start]
  cases hx : Session.load job.registry (.empty job.target.partition) job.target.classId
      job.target with
  | error e => exact run_finished _ rfl
  | ok s =>
    obtain ⟨cls, _, rfl⟩ := Session.exists_load hx
    let o := Resident.loaded job.target cls
    have hhas : Desk.Has ⟨.serving job.target o, none⟩ (.session job.target) o := by
      refine ⟨Session.object?_serving job.target o, fun id hid => ?_⟩
      cases hid
      rfl
    have hinvoke : (invoke (.session job.target) job.operation job.target job.envelope).run
        job.registry localOnly (⟨.serving job.target o, none⟩, store) = _ :=
      run_invoke hhas job.operation job.envelope false
    have hbody : Race.work job ⟨.running, .body, .serving job.target o, store, false, none⟩ =
        match job.operation.tryInvoke job.registry job.envelope ⟨o, store, false⟩ with
        | (.ok payload, scene) => ⟨.running, .gate payload,
          (Session.serving job.target o).putBack scene.object, scene.store, scene.late, none⟩
        | (.fail e, scene) => ⟨.running, .finished (.fail (.invoke e)),
          (Session.serving job.target o).putBack scene.object, scene.store, scene.late, none⟩
        | (.crash, scene) => ⟨.running, .finished .crash,
          (Session.serving job.target o).putBack scene.object, scene.store, scene.late, none⟩ := by
      unfold Race.work Race.runBody
      dsimp only
      rw [Session.object?_serving]
      dsimp only
      rcases job.operation.tryInvoke job.registry job.envelope ⟨o, store, false⟩ with ⟨out, scene⟩
      cases out <;> rfl
    dsimp only
    rw [run_andThen, hinvoke, hbody]
    rcases job.operation.tryInvoke job.registry job.envelope ⟨o, store, false⟩ with ⟨out, scene⟩
    cases out with
    | fail e => exact run_finished _ rfl
    | crash => exact run_finished _ rfl
    | ok payload =>
      have hidentity : o.identity = job.target := rfl
      have hkeyed : (Session.serving job.target o).Keyed :=
        (Session.keyed_empty job.target.partition).insert hidentity _
      exact run_passGate (hkeyed.putBack scene.object) rfl payload scene.late none

/-! ## Writes through an accessor -/

theorem run_write (q : Proxy) (accessor : String) (v : Value) :
    (write q accessor v).run registry localOnly (d, store) =
      ((((q.write accessor v).mapError .proxy) store).1, d, (q.write accessor v store).2) := by
  unfold write Run.mapError
  rw [run_perform]
  unfold Move.run
  dsimp only
  rcases q.write accessor v store with ⟨out, store'⟩
  cases out <;> rfl

/-! ## All of them -/

/-- Programs that nobody comes between do what the code does in one go: a session that commits or
calls one of its objects, the worker of a call from afar, and a proxy that writes a field. -/
structure LeftAlone (σ : Type) [Store σ] : Prop where
  commit (registry : Registry) (localOnly : Bool) (d : Desk) (store : σ) (hkeyed : d.session.Keyed)
    (hdeletions : d.session.deletions = {}) :
    Program.commit.run registry localOnly (d, store) = d.behind (Session.commit (d.session, store))
  invokeLocal (c : Catalog) (localOnly : Bool) (d : Desk) (store : σ) (id : Identity)
    (method : String) (arg : Value) :
    let x := (Program.invokeLocal c id method arg).run c.registry localOnly (d, store)
    (x.1, x.2.1.session, x.2.2) = Session.invokeLocal c id method arg (d.session, store)
  serve (job : Job) (localOnly isOpen : Bool) (store : σ) :
    let x := (Program.serve job isOpen).run job.registry localOnly
      (.empty job.target.partition, store)
    let r := Race.run job (.start job store) (.work :: .work :: events isOpen)
    r.worker = .finished x.1 ∧ r.session = x.2.1.session ∧ r.store = x.2.2
  write (registry : Registry) (localOnly : Bool) (d : Desk) (store : σ) (p : Proxy)
    (accessor : String) (v : Value) :
    (Program.write p accessor v).run registry localOnly (d, store) =
      ((p.write accessor v store).1.mapError .proxy, d, (p.write accessor v store).2)

theorem leftAlone : LeftAlone σ where
  commit _ _ _ _ hkeyed hdeletions := run_commit hkeyed hdeletions
  invokeLocal c _ _ _ id method arg := run_invokeLocal c id method arg
  serve job _ isOpen store := run_serve job isOpen store
  write _ _ _ _ p accessor v := run_write p accessor v

end Program

end ObjectSpace
