import ObjectSpace.Proofs.Dispatch.Deadlines
import ObjectSpace.Proofs.Session.Remote

/-!
# Failures on their way to the caller

A failure of a call crosses as its report. The failures that a handler answers with are its own or
those of the method: none is one that a proxy was told, so the status of its report follows from its
category and is not that of a success. The caller then has the report as it was made.
-/

namespace ObjectSpace

open Success

/-- The failure is not one that a proxy had. -/
def SessionError.Own : SessionError → Prop
  | .proxy _ => False
  | _ => True

theorem SessionError.Own.status_ne_okay {err : SessionError} (h : err.Own) :
    err.report.status ≠ .okay := by
  have hstatus : err.report.status = err.category.status := by
    cases err with
    | proxy e => exact h.elim
    | _ => rfl
  rw [hstatus]
  exact Category.status_ne_okay _

theorem Session.own_of_load {r : Registry} {s : Session} {classId : String} {id : Identity}
    {err : SessionError} (h : s.load r classId id = .error err) : err.Own := by
  rcases bind_eq_error.1 h with h | ⟨_, _, h⟩
  · unfold checkClass at h
    split at h <;> cases h
    trivial
  rcases bind_eq_error.1 h with h | ⟨_, _, h⟩
  · obtain ⟨_, _, rfl⟩ := mapError_eq_error.1 h
    trivial
  split at h
  · cases h
  rcases bind_eq_error.1 h with h | ⟨_, _, h⟩
  · obtain ⟨_, _, rfl⟩ := mapError_eq_error.1 h
    trivial
  · cases h

namespace Race

variable {σ : Type} {job : Job} {r : Race σ}

/-- Neither the waiter nor the worker has a failure that a proxy had. -/
structure Owning (r : Race σ) : Prop where
  answer : ∀ err, r.answer = some (.error err) → err.Own
  worker : ∀ err, r.worker = .finished (.fail err) → err.Own

theorem owning_start (job : Job) (store : σ) : (start job store).Owning :=
  ⟨fun _ => nofun, fun _ => nofun⟩

theorem Owning.finish (h : r.Owning) {out : Outcome SessionError ByteArray}
    (hout : ∀ err, out = .fail err → err.Own) : (r.finish out).Owning where
  answer := h.answer
  worker := by
    rintro err ⟨⟩
    exact hout err rfl

theorem Owning.join (h : r.Owning) : (r.join job).Owning := by
  unfold Race.join
  split
  case h_1 out _ hworker =>
    refine ⟨?_, h.worker⟩
    cases out with
    | ok payload => rintro err ⟨⟩
    | fail err =>
      rintro _ ⟨⟩
      exact h.worker err hworker
    | crash =>
      rintro _ ⟨⟩
      trivial
  case h_2 => exact h

theorem Owning.deadline (h : r.Owning) : (r.deadline job).Owning := by
  unfold Race.deadline
  split
  · refine ⟨?_, h.worker⟩
    rintro _ ⟨⟩
    trivial
  · exact h

theorem Owning.load (h : r.Owning) : (r.load job).Owning := by
  unfold Race.load
  split
  · exact ⟨h.answer, fun _ => nofun⟩
  case h_2 hload =>
    refine h.finish ?_
    rintro _ ⟨⟩
    exact Session.own_of_load hload

theorem Owning.passGate (h : r.Owning) (payload : ByteArray) :
    (r.passGate job payload).Owning := by
  unfold Race.passGate
  split
  · exact ⟨h.answer, fun _ => nofun⟩
  · refine h.finish ?_
    rintro _ ⟨⟩
    trivial

variable [Store σ]

/-- What goes wrong in the body is a failure of the method, even if the body was told of it. -/
theorem Owning.runBody (h : r.Owning) : (r.runBody job).Owning := by
  unfold Race.runBody
  split
  · refine h.finish ?_
    rintro _ ⟨⟩
    trivial
  · rcases job.operation.tryInvoke job.registry job.envelope _ with ⟨out, scene⟩
    cases out with
    | ok payload => exact ⟨h.answer, fun _ => nofun⟩
    | fail e =>
      refine ⟨h.answer, ?_⟩
      rintro _ ⟨⟩
      trivial
    | crash => exact ⟨h.answer, fun _ => nofun⟩

theorem Owning.commit (h : r.Owning) (payload : ByteArray) : (r.commit payload).Owning := by
  unfold Race.commit
  rcases Session.commit (r.session, r.store) with ⟨out, s, store⟩
  have hr : Owning { r with session := s, store := store } := ⟨h.answer, h.worker⟩
  cases out with
  | ok report =>
    refine hr.finish fun err herr => ?_
    unfold CommitReport.result at herr
    split at herr
    · cases herr
    · cases herr
      trivial
  | fail e => cases e
  | crash => exact hr.finish fun _ => nofun

theorem Owning.work (h : r.Owning) : (r.work job).Owning := by
  unfold Race.work
  split
  · exact h.load
  · exact h.runBody
  · exact h.passGate _
  · exact h.commit _
  · exact h

theorem Owning.step (h : r.Owning) (e : Event) : (r.step job e).Owning := by
  cases e with
  | work => exact h.work
  | join => exact h.join
  | deadline => exact h.deadline

/-- In whatever order things happen, no failure is one that a proxy had. -/
theorem Owning.run (h : r.Owning) (events : List Event) : (r.run job events).Owning := by
  induction events generalizing r with
  | nil => exact h
  | cons e events ih => exact ih (h.step e)

end Race

/-! ## What a call is answered with -/

namespace Handler

variable {σ : Type} [Store σ] {h : Handler} {id : Identity} {e : Envelope} {store : σ}
  {err : SessionError}

/-- What a call has been answered with when it was served in these turns. -/
def answer? (h : Handler) (turns : List Errand.Turn) (id : Identity) (e : Envelope) (store : σ) :
    Option (Except SessionError ByteArray) :=
  match h.job id e with
  | .error err => some (.error err)
  | .ok job => (Errand.run job (.start job store) turns).race.answer

theorem own_of_answer {turns : List Errand.Turn}
    (ha : h.answer? turns id e store = some (.error err)) : err.Own := by
  unfold answer? at ha
  split at ha
  case h_1 hjob =>
    cases ha
    rcases bind_eq_error.1 hjob with hop | ⟨_, _, hjob⟩
    · obtain ⟨_, _, rfl⟩ := mapError_eq_error.1 hop
      trivial
    · cases hjob
  case h_2 job _ =>
    obtain ⟨events, hevents⟩ := Errand.exists_events job (.start job store) turns
    rw [hevents] at ha
    exact ((Race.owning_start job store).run events).answer err ha

/-- A call is served as a whole in turns like these. -/
theorem exists_turns_of_tryHandle (h : Handler) (id : Identity) (e : Envelope) (store : σ) :
    ∃ turns a, h.answer? turns id e store = some a ∧
      (h.tryHandle id e store).1 = .ofExcept a := by
  unfold answer? tryHandle
  cases h.job id e with
  | error err => exact ⟨[], .error err, rfl, rfl⟩
  | ok job =>
    obtain ⟨turns, a, hrun, ha⟩ := Errand.exists_turns_of_settle job store
    refine ⟨turns, a, ?_, ?_⟩
    · dsimp only
      rw [hrun, ha]
    · dsimp only
      rw [ha]
      rfl

/-- Where calls are served in turns, a failure is replied to with its report. -/
theorem transport_of_answer {turns : List Errand.Turn}
    (ha : h.answer? turns id e store = some (.error err)) :
    (Errand.transport h turns id e store).1 = .ok (.reply (.failure err.report)) := by
  unfold answer? at ha
  unfold Errand.transport
  cases hjob : h.job id e with
  | error err' =>
    rw [hjob] at ha
    cases ha
    rfl
  | ok job =>
    rw [hjob] at ha
    dsimp only at ha ⊢
    rw [Errand.delivery, ha]

theorem own_of_tryHandle {store' : σ} (hserved : h.tryHandle id e store = (.fail err, store')) :
    err.Own := by
  obtain ⟨turns, a, ha, hout⟩ := exists_turns_of_tryHandle h id e store
  rw [hserved] at hout
  cases a with
  | ok payload => cases hout
  | error err' =>
    cases hout
    exact own_of_answer ha

end Handler

/-! ## What the caller gets -/

/-- The reply is that of a failure with this report. -/
def Reply.Conveys (reply : Reply) (r : Report) : Prop :=
  reply.status ≠ .okay ∧ reply.report? = some r

theorem SessionError.Own.conveys {err : SessionError} (h : err.Own) :
    (Reply.failure err.report).Conveys err.report :=
  ⟨h.status_ne_okay, Reply.report?_failure h.status_ne_okay⟩

/-- Whoever has the envelope sent, by a proxy or out of a session, fails with this report. -/
structure Connection.Tells {σ : Type} [Store σ] (conn : Connection σ) (id : Identity)
    (e : Envelope) (store : σ) (r : Report) : Prop where
  send : ∀ (p : Proxy) (m : Method), p.identity = id →
    ∃ err, (p.send conn m e store).1 = .fail err ∧ err.report = r
  call : ∀ (p : Proxy) (m : Method) (arg : Value), p.identity = id →
    p.signature e.method = .ok m → m.encodeCall arg = .ok e.payload →
    ∃ err, (p.call conn e.method arg e.options store).1 = .fail err ∧ err.report = r
  session : ∀ (c : Catalog) (s : Session) (t : Target) (p : Proxy) (m : Method) (arg : Value),
    t.normalize = .ok id → s.isResident id = false →
    c.registry.materialize id id.classId = .ok p → p.signature e.method = .ok m →
    m.encodeCall arg = .ok e.payload → e.options = {} →
    ∃ err, (Session.call c conn t e.method arg (s, store)).1 = .fail err ∧ err.report = r

section

variable {σ : Type} [Store σ] {conn : Connection σ} {id : Identity} {e : Envelope}
  {store store' : σ} {reply : Reply} {r : Report}

theorem Reply.Conveys.tells (hconveys : reply.Conveys r)
    (hreply : conn.transport id e store = (.ok (.reply reply), store')) :
    conn.Tells id e store r := by
  have hcall : ∀ (p : Proxy) (m : Method) (arg : Value), p.identity = id →
      p.signature e.method = .ok m → m.encodeCall arg = .ok e.payload →
      p.call conn e.method arg e.options store = (.fail (.remote r), store') := by
    rintro p m arg rfl hm hpayload
    rw [Proxy.call_apply, hm]
    dsimp only
    rw [hpayload]
    dsimp only
    rw [Proxy.invokeRaw_of_reply hconveys.2 hreply]
  refine ⟨?_, fun p m arg hp hm hpayload => ?_, ?_⟩
  · rintro p m rfl
    refine ⟨.remote r, ?_, rfl⟩
    unfold Proxy.send
    rw [Run.bind_apply, Proxy.invokeRaw_of_reply hconveys.2 hreply]
  · exact ⟨.remote r, congrArg Prod.fst (hcall p m arg hp hm hpayload), rfl⟩
  · intro c s t p m arg ht hs hp hm hpayload hoptions
    refine ⟨.proxy (.remote r), ?_, rfl⟩
    have h := hcall p m arg (Registry.identity_of_materialize hp) hm hpayload
    rw [hoptions] at h
    rw [Session.call_apply ht, if_neg (Bool.eq_false_iff.1 hs), hp]
    dsimp only
    rw [h]
    rfl

end

/-- A failure of a call crosses as its report and comes to the caller as it was made, in whatever
order the call is served. -/
theorem Handler.failure_unchanged {σ : Type} [Store σ] (h : Handler) (id : Identity) (e : Envelope)
    (store : σ) :
    (∀ err store', h.tryHandle id e store = (.fail err, store') →
      ∃ reply, h.handle id e store = (.ok reply, store') ∧ reply.Conveys err.report ∧
        ∀ conn : Connection σ, conn.transport = (Loopback.unbound.bind h).2.transport →
          conn.Tells id e store err.report) ∧
    (∀ turns err, h.answer? turns id e store = some (.error err) →
      ∃ reply, (Errand.transport h turns id e store).1 = .ok (.reply reply) ∧
        reply.Conveys err.report ∧
        ∀ conn : Connection σ, conn.transport = Errand.transport h turns →
          conn.Tells id e store err.report) ∧
    ∀ (r : Report) (status : Status), Report.ofBytes status r.toBytes = r := by
  refine ⟨fun err store' hserved => ?_, fun turns err hanswer => ?_,
    fun r status => Report.ofBytes_toBytes status r⟩
  · have hconveys := (own_of_tryHandle hserved).conveys
    refine ⟨.failure err.report, ?_, hconveys, fun conn hconn => ?_⟩
    · unfold handle
      rw [hserved]
    · have hreply : conn.transport id e store = (.ok (.reply (.failure err.report)), store') := by
        rw [hconn, Loopback.transport_apply, hserved]
      exact hconveys.tells hreply
  · have hconveys := (own_of_answer hanswer).conveys
    have hreply := transport_of_answer hanswer
    refine ⟨_, hreply, hconveys, fun conn hconn => ?_⟩
    have hdelivered : conn.transport id e store =
        (.ok (.reply (.failure err.report)), (Errand.transport h turns id e store).2) := by
      rw [hconn, ← hreply]
    exact hconveys.tells hdelivered

/-- A method that cannot be had, for reasons that are not plain text. -/
def outOfOrder : ApplicationError :=
  ⟨.unavailable, "out of \"order\"\n", Table.empty.insert "sign\\" "\t"⟩

def elevator : Service :=
  ⟨⟨"Elevator", [], [⟨⟨"rise", .noArguments, [], .any, none⟩, fun _ _ => .fail outOfOrder⟩], []⟩,
    by decide⟩

def elevatorHandler : Handler := ⟨⟨Table.empty.insert "Elevator" elevator⟩, 10, "crashed"⟩

def elevatorId : Identity := ⟨"Elevator", 0, 1⟩

/-- The report of the failure has all that the method has said, and the caller in a session of its
own has this report. -/
theorem Handler.failure_unchanged_elevator :
    ∃ reply, elevatorHandler.handle elevatorId ⟨"rise", .empty, {}⟩ Memory.empty =
        (.ok reply, Memory.empty) ∧
      reply.status = .systemError ∧
      reply.report? = some ⟨.systemError, .unavailable, outOfOrder.message, outOfOrder.details⟩ ∧
      ∃ err, (Session.call elevatorHandler.catalog
          ⟨(Loopback.unbound.bind elevatorHandler).2.transport, 10⟩ (.record elevatorId) "rise" .null
          (.empty 0, Memory.empty)).1 = .fail err ∧
        err.report = ⟨.systemError, .unavailable, outOfOrder.message, outOfOrder.details⟩ := by
  have hserved : elevatorHandler.tryHandle elevatorId ⟨"rise", .empty, {}⟩ Memory.empty =
      (.fail (.invoke (.application outOfOrder)), Memory.empty) := rfl
  obtain ⟨reply, hreply, ⟨_, hreport⟩, htells⟩ :=
    (Handler.failure_unchanged elevatorHandler elevatorId ⟨"rise", .empty, {}⟩ Memory.empty).1
      _ _ hserved
  have hstatus : reply.status = .systemError := by
    unfold Handler.handle at hreply
    rw [hserved] at hreply
    cases hreply
    rfl
  refine ⟨reply, hreply, hstatus, hreport, ?_⟩
  exact (htells ⟨_, 10⟩ rfl).session elevatorHandler.catalog (.empty 0) (.record elevatorId)
    ⟨elevatorId, elevator.schema⟩ ⟨"rise", .noArguments, [], .any, none⟩ .null rfl rfl rfl rfl rfl rfl

end ObjectSpace
