import ObjectSpace.Loopback
import ObjectSpace.Proofs.Dispatch.Race
import ObjectSpace.Proofs.Report.Wire
import ObjectSpace.Proofs.Session.Reload

/-!
# Calls that are served in time

Where no deadline passes, what the caller gets through a loopback is what the body of the method has
come to: its result once the target is written, or the report of its failure.
-/

namespace ObjectSpace

/-- What the worker does next when the body has come to its end. -/
def Worker.behind : Outcome InvokeError ByteArray → Worker
  | .ok payload => .gate payload
  | .fail e => .finished (.fail (.invoke e))
  | .crash => .finished .crash

variable {σ : Type} [Store σ]

/-- A session that could flush its object has no failures to report. -/
theorem Session.commit_serving_ok {o : Resident} {store : σ} {n : Nat} (id : Identity)
    (hflush : (Resident.flush (o, store)).1 = .ok n) :
    ∃ s', ∃ report : CommitReport, report.result = .ok report ∧
      commit (.serving id o, store) = (.ok report, (s', (Resident.flush (o, store)).2.2)) := by
  obtain ⟨s', hcommit⟩ := commit_serving id o store
  rw [hflush] at hcommit
  refine ⟨s', _, ?_, hcommit⟩
  cases o.isDirty <;> rfl

namespace Race

variable {job : Job} {store : σ} {cls : Class}

/-- A worker that has passed the gate answers with the result once the target is written. -/
theorem run_gate (job : Job) (payload : ByteArray) {o : Resident} {n : Nat}
    (hflush : (Resident.flush (o, store)).1 = .ok n) :
    ∃ s', run job ⟨.running, .gate payload, .serving job.target o, store, false, none⟩
        [.work, .work, .join] =
      ⟨.committing, .finished (.ok payload), s', (Resident.flush (o, store)).2.2, false,
        some (.ok payload)⟩ := by
  obtain ⟨s', report, hreport, hcommit⟩ := Session.commit_serving_ok job.target hflush
  refine ⟨s', ?_⟩
  change join job (commit payload
    ⟨.committing, .commit payload, .serving job.target o, store, false, none⟩) = _
  unfold commit
  rw [hcommit]
  dsimp only
  rw [hreport]
  rfl

section

variable (hid : job.target.validate = .ok ())
  (hc : job.registry.find job.target.classId = .ok cls)

include hid hc

theorem work_start : (start job store).work job =
    { start job store with
      session := .serving job.target (.loaded job.target cls)
      worker := .body } := by
  have hload : (start job store).session.load job.registry job.target.classId job.target =
      .ok (.serving job.target (.loaded job.target cls)) := Session.load_absent hid hc rfl
  change load job (start job store) = _
  unfold load
  rw [hload]

/-- The worker has done its work on the target. -/
theorem run_start {out : Outcome InvokeError ByteArray} {scene : Scene σ}
    (hrun : job.operation.tryInvoke job.registry job.envelope
      ⟨.loaded job.target cls, store, false⟩ = (out, scene)) :
    run job (start job store) [.work, .work] =
      ⟨.running, .behind out, .serving job.target scene.object, scene.store, scene.late, none⟩ := by
  have hidentity : scene.object.identity = job.target := by
    have hchanges := (job.operation.changes job.registry job.envelope
      ⟨.loaded job.target cls, store, false⟩).identity
    rw [hrun] at hchanges
    exact hchanges
  change ((start job store).work job).work job = _
  rw [work_start hid hc]
  change runBody job _ = _
  unfold runBody
  dsimp only
  rw [Session.object?_serving]
  dsimp only [start]
  rw [hrun]
  dsimp only
  rw [Session.putBack_serving hidentity]
  cases out <;> rfl

/-- The result of a body that was in time is answered when the target is written. -/
theorem settle_ok {payload : ByteArray} {scene : Scene σ} {n : Nat}
    (hrun : job.operation.tryInvoke job.registry job.envelope
      ⟨.loaded job.target cls, store, false⟩ = (.ok payload, scene))
    (hlate : scene.late = false) (hflush : (Resident.flush (scene.object, scene.store)).1 = .ok n) :
    ((start job store).settle job).answer = some (.ok payload) ∧
      ((start job store).settle job).store =
        (Resident.flush (scene.object, scene.store)).2.2 := by
  obtain ⟨s', hrest⟩ := run_gate job payload hflush
  unfold settle
  dsimp only
  rw [run_start hid hc hrun, hlate]
  dsimp only [Worker.behind]
  rw [if_neg (by decide), hrest]
  exact ⟨rfl, rfl⟩

/-- A body that has no result is answered as it ended, and its target is not written. -/
theorem settle_finished {out : Outcome InvokeError ByteArray}
    {ended : Outcome SessionError ByteArray} {scene : Scene σ}
    (hrun : job.operation.tryInvoke job.registry job.envelope
      ⟨.loaded job.target cls, store, false⟩ = (out, scene)) (hlate : scene.late = false)
    (hended : Worker.behind out = .finished ended) :
    ((start job store).settle job).answer = some (joined job ended) ∧
      ((start job store).settle job).store = scene.store := by
  unfold settle
  dsimp only
  rw [run_start hid hc hrun, hlate, hended]
  exact ⟨rfl, rfl⟩

end

end Race

namespace Handler

variable {h : Handler} {id : Identity} {e : Envelope} {op : Operation} {store : σ} {cls : Class}
  {scene : Scene σ}

/-- The worker's job for the operation. -/
def jobOf (h : Handler) (id : Identity) (e : Envelope) (op : Operation) : Job :=
  ⟨h.catalog.registry, op, id, e, op.method.timeout.getD h.callTimeout, h.crashText⟩

theorem tryHandle_of_settle (hop : h.catalog.operation id.classId e.method = .ok op) {store' : σ}
    {a : Except SessionError ByteArray}
    (hsettled : ((Race.start (h.jobOf id e op) store).settle (h.jobOf id e op)).answer = some a ∧
      ((Race.start (h.jobOf id e op) store).settle (h.jobOf id e op)).store = store') :
    h.tryHandle id e store = (.ofExcept a, store') := by
  have hjob : h.job id e = .ok (h.jobOf id e op) := by
    unfold job
    rw [hop]
    rfl
  unfold tryHandle
  rw [hjob]
  dsimp only
  rw [hsettled.1, hsettled.2]
  rfl

variable (hid : id.validate = .ok ()) (hc : h.catalog.registry.find id.classId = .ok cls)
  (hop : h.catalog.operation id.classId e.method = .ok op) (hlate : scene.late = false)

include hid hc hop hlate

theorem tryHandle_ok {bytes : ByteArray} {n : Nat}
    (hrun : op.tryInvoke h.catalog.registry e ⟨.loaded id cls, store, false⟩ = (.ok bytes, scene))
    (hflush : (Resident.flush (scene.object, scene.store)).1 = .ok n) :
    h.tryHandle id e store =
      (.ok bytes, (Resident.flush (scene.object, scene.store)).2.2) :=
  tryHandle_of_settle hop (Race.settle_ok hid hc hrun hlate hflush)

theorem tryHandle_fail {err : InvokeError}
    (hrun : op.tryInvoke h.catalog.registry e ⟨.loaded id cls, store, false⟩ = (.fail err, scene)) :
    h.tryHandle id e store = (.fail (.invoke err), scene.store) :=
  tryHandle_of_settle hop (Race.settle_finished hid hc hrun hlate rfl)

/-- A body that crashes does not take the handler with it. -/
theorem tryHandle_crash
    (hrun : op.tryInvoke h.catalog.registry e ⟨.loaded id cls, store, false⟩ = (.crash, scene)) :
    h.tryHandle id e store = (.fail (.join h.crashText), scene.store) :=
  tryHandle_of_settle hop (Race.settle_finished hid hc hrun hlate rfl)

end Handler

/-! ## The caller's side -/

theorem Loopback.transport_apply (h : Handler) (id : Identity) (e : Envelope) (store : σ) :
    (Loopback.unbound.bind h).2.transport id e store =
      match h.tryHandle id e store with
      | (.ok payload, s) => (.ok (.reply (.ok payload)), s)
      | (.fail err, s) => (.ok (.reply (.failure err.report)), s)
      | (.crash, s) => (.crash, s) := by
  have hbound : (Loopback.unbound.bind h).2 = ⟨some h⟩ := rfl
  rw [hbound, transport]
  dsimp only
  rw [Run.bind_apply, Run.mapError, Handler.handle]
  rcases h.tryHandle id e store with ⟨out, s⟩
  cases out <;> rfl

namespace Proxy

variable {conn : Connection σ} {p : Proxy} {store : σ}

omit [Store σ] in
theorem signature_eq {method : String} {m : Method} (hm : p.schema.method? method = some m) :
    p.signature method = .ok m := by
  unfold signature
  rw [hm]

omit [Store σ] in
theorem call_apply (method : String) (arg : Value) (options : Table String String) :
    p.call conn method arg options store =
      match p.signature method with
      | .error e => (.fail e, store)
      | .ok m =>
        match m.encodeCall arg with
        | .error e => (.fail (.codec e), store)
        | .ok payload =>
          match p.invokeRaw conn ⟨method, payload, options⟩ store with
          | (.ok bytes, s) => (.ofExcept ((m.returns.decode "return" bytes).mapError .codec), s)
          | (.fail e, s) => (.fail e, s)
          | (.crash, s) => (.crash, s) := by
  unfold call
  rw [Run.bind_apply]
  cases p.signature method with
  | error e => rfl
  | ok m =>
    dsimp only [Run.ofExcept, Run.ofOutcome, Outcome.ofExcept]
    rw [Run.bind_apply]
    cases m.encodeCall arg with
    | error e => rfl
    | ok payload =>
      dsimp only [Except.mapError, Run.ofExcept, Run.ofOutcome, Outcome.ofExcept]
      unfold send
      rw [Run.bind_apply]
      rcases p.invokeRaw conn ⟨method, payload, options⟩ store with ⟨out, s⟩
      cases out <;> rfl

variable {h : Handler} {store' : σ} {e : Envelope}

omit [Store σ] in
/-- The caller gets the report that a reply holds. -/
theorem invokeRaw_of_reply {reply : Reply} {r : Report} (hreport : reply.report? = some r)
    (hreply : conn.transport p.identity e store = (.ok (.reply reply), store')) :
    p.invokeRaw conn e store = (.fail (.remote r), store') := by
  unfold invokeRaw
  rw [Run.bind_apply, Run.mapError, hreply]
  dsimp only [Outcome.mapError]
  rw [hreport]
  rfl

variable (hconn : conn.transport = (Loopback.unbound.bind h).2.transport)

include hconn

theorem invokeRaw_ok {payload : ByteArray}
    (hserved : h.tryHandle p.identity e store = (.ok payload, store')) :
    p.invokeRaw conn e store = (.ok payload, store') := by
  unfold invokeRaw
  rw [Run.bind_apply, Run.mapError, hconn, Loopback.transport_apply, hserved]
  rfl

/-- The caller gets the report of a failure as the handler made it. -/
theorem invokeRaw_fail {err : SessionError} (hstatus : err.report.status ≠ .okay)
    (hserved : h.tryHandle p.identity e store = (.fail err, store')) :
    p.invokeRaw conn e store = (.fail (.remote err.report), store') := by
  refine invokeRaw_of_reply (Reply.report?_failure hstatus) ?_
  rw [hconn, Loopback.transport_apply, hserved]

end Proxy
end ObjectSpace
