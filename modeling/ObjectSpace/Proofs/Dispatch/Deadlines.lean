import ObjectSpace.Proofs.Dispatch.Handling

/-!
# Two deadlines

A call through a loopback has two deadlines. At that of the far side the waiter closes the gate. At
that of the caller nobody waits any longer: the waiter is gone without having closed the gate, and
the worker passes it when the body is done. So a call that the far side has given up never changes
the store, and one that only its caller has given up is committed all the same.
-/

namespace ObjectSpace

/-- A call that is served in the same place. Once its caller has given up, the waiter is gone, and
the worker is alone. -/
structure Errand (σ : Type) where
  race : Race σ
  deserted : Bool

namespace Errand

/-- One side of the race takes a step, or the caller gives up. -/
inductive Turn where
  | serve (e : Event)
  | giveUp

/-- What is left of a turn when the waiter is gone. -/
def Turn.work? : Turn → Option Event
  | serve .work => some .work
  | _ => none

variable {σ : Type}

def start (job : Job) (store : σ) : Errand σ := ⟨.start job store, false⟩

/-- A caller that has been answered does not give up. -/
def turn [Store σ] (job : Job) (c : Errand σ) : Turn → Errand σ
  | .serve e =>
    if c.deserted = true ∧ e ≠ .work then c else { c with race := Race.step job c.race e }
  | .giveUp => if c.race.answer.isSome then c else { c with deserted := true }

def run [Store σ] (job : Job) (c : Errand σ) (turns : List Turn) : Errand σ :=
  turns.foldl (turn job) c

/-- The caller has an answer, or waits for none. -/
def Over (c : Errand σ) : Prop := c.deserted = true ∨ c.race.answer.isSome = true

/-- What comes of the call for its caller. -/
def delivery (c : Errand σ) : Delivery :=
  match c.race.answer with
  | some (.ok payload) => .reply (.ok payload)
  | some (.error err) => .reply (.failure err.report)
  | none => .silence

/-- How long a proxy waits for a call. -/
def patience (conn : Connection σ) (p : Proxy) (method : String) : Nat :=
  ((p.schema.method? method).bind Method.timeout).getD conn.callTimeout

/-- What a proxy makes of a delivery. -/
def received (method : String) (ms : Nat) : Delivery → Outcome ProxyError ByteArray
  | .silence => .fail (.timeout method ms)
  | .reply r =>
    match r.report? with
    | some report => .fail (.remote report)
    | none => .ok r.payload

/-- Carries calls to the handler, and serves them in these turns. -/
def transport [Store σ] (h : Handler) (turns : List Turn) : Transport σ := fun id e store =>
  match h.job id e with
  | .error err => (.ok (.reply (.failure err.report)), store)
  | .ok job =>
    let c := run job (start job store) turns
    (.ok c.delivery, c.race.store)

variable [Store σ] {job : Job} {store : σ} {c : Errand σ}

theorem run_append (job : Job) (c : Errand σ) (turns rest : List Turn) :
    run job c (turns ++ rest) = run job (run job c turns) rest := List.foldl_append

/-! ## What becomes of the race -/

/-- A turn is one step of the race, or none. -/
theorem exists_events_of_turn (job : Job) (c : Errand σ) (t : Turn) :
    ∃ events, (turn job c t).race = Race.run job c.race events := by
  cases t with
  | serve e =>
    unfold turn
    dsimp only
    split
    · exact ⟨[], rfl⟩
    · exact ⟨[e], rfl⟩
  | giveUp =>
    unfold turn
    dsimp only
    split <;> exact ⟨[], rfl⟩

theorem exists_events (job : Job) (c : Errand σ) (turns : List Turn) :
    ∃ events, (run job c turns).race = Race.run job c.race events := by
  induction turns generalizing c with
  | nil => exact ⟨[], rfl⟩
  | cons t turns ih =>
    obtain ⟨events, hevents⟩ := exists_events_of_turn job c t
    obtain ⟨rest, hrest⟩ := ih (turn job c t)
    refine ⟨events ++ rest, ?_⟩
    rw [Race.run_append, ← hevents]
    exact hrest

/-- As long as the caller waits, the errand is a race. -/
theorem run_serve (job : Job) (r : Race σ) (events : List Event) :
    run job ⟨r, false⟩ (events.map .serve) = ⟨Race.run job r events, false⟩ := by
  induction events generalizing r with
  | nil => rfl
  | cons e events ih => exact ih (Race.step job r e)

theorem turn_deserted (job : Job) (r : Race σ) (t : Turn) :
    turn job ⟨r, true⟩ t = ⟨Race.run job r t.work?.toList, true⟩ := by
  cases t with
  | serve e => cases e <;> rfl
  | giveUp =>
    unfold turn
    dsimp only
    split <;> rfl

/-- When the waiter is gone, the worker is alone in the race. -/
theorem run_deserted (job : Job) (r : Race σ) (turns : List Turn) :
    run job ⟨r, true⟩ turns = ⟨Race.run job r (turns.filterMap Turn.work?), true⟩ := by
  induction turns generalizing r with
  | nil => rfl
  | cons t turns ih =>
    have hwork : (t :: turns).filterMap Turn.work? =
        t.work?.toList ++ turns.filterMap Turn.work? := by
      rw [List.filterMap_cons]
      cases t.work? <;> rfl
    rw [hwork, Race.run_append, ← ih, ← turn_deserted]
    rfl

end Errand

/-! ## The gate -/

namespace Race

variable {σ : Type} [Store σ] {job : Job} {r : Race σ}

/-- The gate is closed with an answer. -/
theorem answered_of_step (hclosed : r.gate = .abandoned → r.answer.isSome = true) (e : Event)
    (h : (step job r e).gate = .abandoned) : (step job r e).answer.isSome = true := by
  cases e with
  | work =>
    have hwork : Advances r (work job r) := advances_work job r
    change (work job r).answer.isSome = true
    rw [hwork.answer]
    rcases hwork.gate with hsame | hpassed
    · exact hclosed (hsame.symm.trans h)
    · cases hpassed.symm.trans h
  | join =>
    change (r.join job).gate = .abandoned at h
    change (r.join job).answer.isSome = true
    have hjoin : r.join job = r ∨ (r.join job).answer.isSome = true := by
      unfold join
      split
      · exact .inr rfl
      · exact .inl rfl
    rcases hjoin with hsame | hanswered
    · rw [hsame] at h ⊢
      exact hclosed h
    · exact hanswered
  | deadline =>
    change (deadline job r).gate = .abandoned at h
    change (deadline job r).answer.isSome = true
    unfold deadline at h ⊢
    split
    · rfl
    · rw [if_neg ‹_›] at h
      exact hclosed h

/-- Before the gate is passed the store is as it was. -/
theorem Reached.slots_of_running [LawfulStore σ] {store : σ} (hop : job.operation.NeverFlushes)
    (h : Reached job store r) (hgate : r.gate = .running) :
    LawfulStore.slots r.store = LawfulStore.slots store := by
  rcases h.slots hop with ⟨payload, hworker, _⟩ | ⟨_, hslots⟩
  · have hagreed := h.agreed
    rw [hworker, hgate] at hagreed
    rcases hagreed with ⟨hpassed, _⟩ | ⟨hfailed, _⟩
    · cases hpassed
    · cases hfailed
  · exact hslots

/-! ## The end of a race -/

theorem stepsLeft_run (job : Job) (r : Race σ) (events : List Event) :
    stepsLeft (run job r events).worker ≤ stepsLeft r.worker - events.count .work := by
  induction events generalizing r with
  | nil => exact Nat.le_refl _
  | cons e events ih =>
    have hrest : stepsLeft (run job r (e :: events)).worker ≤
        stepsLeft (step job r e).worker - events.count .work := ih (step job r e)
    cases e with
    | work =>
      have hwork : stepsLeft (step job r .work).worker ≤ stepsLeft r.worker - 1 :=
        (advances_work job r).left
      rw [List.count_cons_self]
      omega
    | join => rwa [worker_step (e := .join) nofun] at hrest
    | deadline => rwa [worker_step (e := .deadline) nofun] at hrest

omit [Store σ] in
theorem answered_of_join (h : stepsLeft r.worker = 0) : (r.join job).answer.isSome = true := by
  unfold join
  split
  · rfl
  case h_2 hnot =>
    cases hanswer : r.answer with
    | some a => rfl
    | none =>
      cases hworker : r.worker with
      | finished out => exact absurd hworker (hnot out hanswer)
      | load | body | gate payload | commit payload =>
        rw [hworker] at h
        cases h

/-- The steps of a whole call before its end, with the deadline among them if it is late. -/
def serving (late : Bool) : List Event :=
  .work :: .work :: if late then [.deadline, .work, .work] else [.work, .work]

theorem settle_eq (job : Job) (r : Race σ) :
    ∃ late, settle job r = run job r (serving late ++ [.join]) := by
  refine ⟨(run job r [.work, .work]).late, ?_⟩
  unfold settle serving
  dsimp only
  cases (run job r [.work, .work]).late <;> rfl

/-- A call that is served as a whole is answered. -/
theorem answered_of_serving (job : Job) (r : Race σ) (late : Bool) :
    (run job r (serving late ++ [.join])).answer.isSome = true := by
  rw [run_append]
  have hcount : (serving late).count .work = 4 := by cases late <;> rfl
  have hleft : stepsLeft r.worker ≤ 4 := by cases r.worker <;> simp [stepsLeft]
  have hrun := stepsLeft_run job r (serving late)
  refine answered_of_join ?_
  omega

end Race

namespace Errand

variable {σ : Type} [Store σ] {job : Job} {store : σ} {c : Errand σ}

/-- The gate is closed with an answer, and who has given up is not answered. -/
structure Sound (c : Errand σ) : Prop where
  closed : c.race.gate = .abandoned → c.race.answer.isSome = true
  deserted : c.deserted = true → c.race.answer = none

omit [Store σ] in
theorem sound_start (job : Job) (store : σ) : (start job store).Sound := ⟨nofun, nofun⟩

theorem Sound.turn (h : c.Sound) (t : Turn) : (turn job c t).Sound := by
  cases t with
  | serve e =>
    unfold Errand.turn
    dsimp only
    split
    · exact h
    case isFalse hserved =>
      refine ⟨Race.answered_of_step h.closed e, fun hdeserted => ?_⟩
      -- without the waiter only the worker takes steps
      obtain rfl : e = .work := by
        by_contra hne
        exact hserved ⟨hdeserted, hne⟩
      exact Race.answer_work.trans (h.deserted hdeserted)
  | giveUp =>
    unfold Errand.turn
    dsimp only
    split
    · exact h
    case isFalse hnone =>
      exact ⟨h.closed, fun _ => Option.not_isSome_iff_eq_none.1 hnone⟩

theorem Sound.run (h : c.Sound) (turns : List Turn) : (run job c turns).Sound := by
  induction turns generalizing c with
  | nil => exact h
  | cons t turns ih => exact ih (h.turn t)

omit [Store σ] in
theorem Sound.gate_of_deserted (h : c.Sound) (hdeserted : c.deserted = true)
    (hcommit : c.race.gate ≠ .committing) : c.race.gate = .running := by
  cases hgate : c.race.gate with
  | running => rfl
  | committing => exact absurd hgate hcommit
  | abandoned =>
    have hanswer := h.closed hgate
    rw [h.deserted hdeserted] at hanswer
    cases hanswer

/-! ## What the caller gets -/

/-- A call that is served as a whole is served in some turns, and the caller waits for the answer. -/
theorem exists_turns_of_settle (job : Job) (store : σ) :
    ∃ turns a, run job (start job store) turns = ⟨(Race.start job store).settle job, false⟩ ∧
      ((Race.start job store).settle job).answer = some a := by
  obtain ⟨late, hsettle⟩ := Race.settle_eq job (Race.start job store)
  obtain ⟨a, ha⟩ := Option.isSome_iff_exists.1
    (Race.answered_of_serving job (Race.start job store) late)
  refine ⟨(Race.serving late ++ [Event.join]).map .serve, a, ?_, ?_⟩
  · rw [hsettle]
    exact run_serve job _ _
  · rw [hsettle, ha]

/-- A loopback carries a call in turns like these. The caller never gives up there. -/
theorem exists_turns_of_loopback (h : Handler) (id : Identity) (e : Envelope) (store : σ) :
    ∃ turns, (Loopback.unbound.bind h).2.transport id e store = transport h turns id e store ∧
      ∀ job, h.job id e = .ok job →
        (run job (start job store) turns).race.answer.isSome = true := by
  cases hjob : h.job id e with
  | error err =>
    refine ⟨[], ?_, nofun⟩
    unfold transport
    rw [Loopback.transport_apply, Handler.tryHandle, hjob]
  | ok job =>
    obtain ⟨turns, a, hrun, ha⟩ := exists_turns_of_settle job store
    refine ⟨turns, ?_, fun job' hjob' => ?_⟩
    · unfold transport delivery
      rw [Loopback.transport_apply, Handler.tryHandle, hjob]
      dsimp only
      rw [hrun, ha]
      cases a <;> rfl
    · cases hjob'
      rw [hrun, ha]
      rfl

section

variable {conn : Connection σ} {p : Proxy} {h : Handler} {turns : List Turn} {method : String}
  {payload : ByteArray} {options : Table String String}
  (hconn : conn.transport = transport h turns)
  (hjob : h.job p.identity ⟨method, payload, options⟩ = .ok job)

include hconn hjob

/-- Where calls are served in turns, the caller gets what comes of them. -/
theorem invokeRaw_apply : p.invokeRaw conn ⟨method, payload, options⟩ store =
    (received method (patience conn p method) (run job (start job store) turns).delivery,
      (run job (start job store) turns).race.store) := by
  unfold Proxy.invokeRaw
  rw [Run.bind_apply, Run.mapError, hconn, transport, hjob]
  dsimp only [Outcome.mapError]
  cases (run job (start job store) turns).delivery with
  | silence => rfl
  | reply r =>
    unfold received
    dsimp only
    cases r.report? <;> rfl

/-- A call that has timed out was not answered with a result. -/
theorem answer_of_timeout {arg : Value} {store' : σ} {err : ProxyError}
    (hcall : p.call conn method arg options store = (.fail err, store'))
    (htimeout : err.category = .timeout) {m : Method} (hm : p.signature method = .ok m)
    (hpayload : m.encodeCall arg = .ok payload) :
    (run job (start job store) turns).race.store = store' ∧
      ∀ bytes, (run job (start job store) turns).race.answer ≠ some (.ok bytes) := by
  rw [Proxy.call_apply, hm] at hcall
  dsimp only at hcall
  rw [hpayload] at hcall
  dsimp only at hcall
  rw [invokeRaw_apply hconn hjob] at hcall
  cases hreceived :
    received method (patience conn p method) (run job (start job store) turns).delivery with
  | ok bytes =>
    rw [hreceived] at hcall
    dsimp only at hcall
    -- what is wrong with a result is no timeout
    cases hdecode : m.returns.decode "return" bytes with
    | ok v =>
      rw [hdecode] at hcall
      cases hcall
    | error e =>
      rw [hdecode] at hcall
      cases hcall
      cases e <;> cases htimeout
  | fail e =>
    rw [hreceived] at hcall
    cases hcall
    refine ⟨rfl, fun bytes hanswer => ?_⟩
    unfold delivery at hreceived
    rw [hanswer] at hreceived
    cases hreceived
  | crash =>
    rw [hreceived] at hcall
    cases hcall

end

/-! ## What becomes of the store -/

theorem reached_run (hop : job.operation.NeverFlushes) (store : σ) (turns : List Turn) :
    Race.Reached job store (run job (start job store) turns).race := by
  obtain ⟨events, hevents⟩ := exists_events job (start job store) turns
  rw [hevents]
  exact (Race.Reached.start job store).run hop events

/-- A call that the far side has answered with an error does not change the store, neither before
nor after. -/
theorem slots_of_error [LawfulStore σ] (hop : job.operation.NeverFlushes) {turns : List Turn}
    {e : SessionError} (he : (run job (start job store) turns).race.answer = some (.error e))
    {other : List Turn} (hother : other <+: turns ∨ turns <+: other) :
    LawfulStore.slots (run job (start job store) other).race.store = LawfulStore.slots store := by
  have hreached := reached_run hop store other
  rcases hother with ⟨rest, rfl⟩ | ⟨rest, rfl⟩
  · rw [run_append] at he
    obtain ⟨events, hevents⟩ := exists_events job (run job (start job store) other) rest
    rw [hevents] at he
    exact Race.slots_of_error hop hreached events he
  · obtain ⟨events, hevents⟩ := exists_events job (run job (start job store) turns) rest
    rw [run_append] at hreached ⊢
    refine Race.slots_of_error hop hreached [] (e := e) ?_
    change (run job _ rest).race.answer = _
    rw [hevents]
    exact Race.answer_run he events

/-- A call that has timed out before the worker passed the gate has written nothing yet. If the far
side has given it up, it never changes the store. If only the caller has given up, the gate is open
still and the worker goes on alone, and may yet store what the body left dirty, as if in time. A
loopback carries every call in some such turns, by the end of which it is answered. -/
theorem store_of_timeout [LawfulStore σ] {h : Handler} {p : Proxy} {conn : Connection σ}
    {turns : List Turn} (hconn : conn.transport = transport h turns) {method : String} {arg : Value}
    {options : Table String String} {store' : σ} {err : ProxyError}
    (hcall : p.call conn method arg options store = (.fail err, store'))
    (htimeout : err.category = .timeout) {m : Method} {payload : ByteArray}
    (hm : p.signature method = .ok m) (hpayload : m.encodeCall arg = .ok payload)
    (hjob : h.job p.identity ⟨method, payload, options⟩ = .ok job)
    (hop : job.operation.NeverFlushes) (hover : (run job (start job store) turns).Over)
    (hcommit : (run job (start job store) turns).race.gate ≠ .committing) :
    let after (turns : List Turn) := run job (start job store) turns
    LawfulStore.slots store' = LawfulStore.slots store ∧
      (((after turns).deserted = false ∧ ∀ other, other <+: turns ∨ turns <+: other →
          LawfulStore.slots (after other).race.store = LawfulStore.slots store) ∨
        (after turns).deserted = true ∧ (after turns).race.gate = .running ∧ ∀ rest,
          (after (turns ++ rest)).race =
            Race.run job (after turns).race (rest.filterMap Turn.work?) ∧
          (LawfulStore.slots (after (turns ++ rest)).race.store = LawfulStore.slots store ∨
            ∃ payload, Race.Stored job store payload (after (turns ++ rest)).race.store)) ∧
      ∀ id e (store : σ), ∃ turns,
        (Loopback.unbound.bind h).2.transport id e store = transport h turns id e store ∧
        ∀ job, h.job id e = .ok job →
          (run job (start job store) turns).race.answer.isSome = true := by
  intro after
  obtain ⟨hstore, hfailed⟩ := answer_of_timeout hconn hjob hcall htimeout hm hpayload
  have hsound : (after turns).Sound := (sound_start job store).run turns
  cases hdeserted : (after turns).deserted with
  | false =>
    obtain ⟨e, he⟩ : ∃ e, (after turns).race.answer = some (.error e) := by
      rcases hover with hgone | hanswered
      · cases hdeserted.symm.trans hgone
      · obtain ⟨a, ha⟩ := Option.isSome_iff_exists.1 hanswered
        cases a with
        | ok bytes => exact absurd ha (hfailed bytes)
        | error e => exact ⟨e, ha⟩
    have hslots : ∀ other, other <+: turns ∨ turns <+: other →
        LawfulStore.slots (after other).race.store = LawfulStore.slots store :=
      fun other hother => slots_of_error hop he hother
    exact ⟨hstore ▸ hslots turns (.inl (List.prefix_refl turns)), .inl ⟨rfl, hslots⟩,
      exists_turns_of_loopback h⟩
  | true =>
    have hgate := hsound.gate_of_deserted hdeserted hcommit
    have halone : after turns = ⟨(after turns).race, true⟩ := hdeserted ▸ rfl
    refine ⟨?_, .inr ⟨rfl, hgate, fun rest => ⟨?_, ?_⟩⟩, exists_turns_of_loopback h⟩
    · rw [← hstore]
      exact (reached_run hop store turns).slots_of_running hop hgate
    · change (run job (start job store) (turns ++ rest)).race = _
      rw [run_append]
      change (run job (after turns) rest).race = _
      rw [halone, run_deserted]
    · rcases (reached_run hop store (turns ++ rest)).slots hop with
        ⟨payload, _, hstored⟩ | ⟨_, hslots⟩
      · exact .inr ⟨payload, hstored⟩
      · exact .inl hslots

/-! ## A counter that is set -/

def settableHandler : Handler := ⟨⟨Table.empty.insert "Counter" Service.settable⟩, 10, "crashed"⟩

def settableProxy : Proxy := ⟨⟨"Counter", 0, 1⟩, Service.settable.schema⟩

/-- The counter is set by a call that is served in these turns. -/
def callSet (turns : List Turn) : Outcome ProxyError Value × Memory :=
  settableProxy.call ⟨transport settableHandler turns, 10⟩ "set" .null {} Memory.empty

def settableJob : Job :=
  settableHandler.jobOf settableProxy.identity ⟨"set", .empty, {}⟩
    (.counting "set" .any (.done .null))

def settableAfter (turns : List Turn) : Errand Memory :=
  run settableJob (start settableJob Memory.empty) turns

/-- The deadline of the far side passes when the body is done. -/
def farDeadline : List Turn := [.serve .work, .serve .work, .serve .deadline]

theorem store_of_timeout_settable :
    settableHandler.job settableProxy.identity ⟨"set", .empty, {}⟩ = .ok settableJob ∧
    ∃ err store', callSet farDeadline = (.fail err, store') ∧ err.category = .timeout ∧
      (settableAfter farDeadline).Over ∧
      (settableAfter farDeadline).race.gate ≠ .committing ∧
      ∀ rest, LawfulStore.slots (settableAfter (farDeadline ++ rest)).race.store =
        LawfulStore.slots Memory.empty := by
  obtain ⟨report, hcall, hreport⟩ : ∃ report,
      callSet farDeadline = (.fail (.remote report), Memory.empty) ∧
        report = (Race.timedOut settableJob).report :=
    ⟨_, rfl, Report.ofBytes_toBytes _ (Race.timedOut settableJob).report⟩
  have htimeout : (ProxyError.remote report).category = .timeout := by
    rw [hreport]
    rfl
  have hover : (settableAfter farDeadline).Over := .inr rfl
  have hcommit : (settableAfter farDeadline).race.gate ≠ .committing := nofun
  obtain ⟨_, ⟨_, hslots⟩ | ⟨hdeserted, _⟩, _⟩ := store_of_timeout (h := settableHandler) rfl hcall
    htimeout rfl rfl rfl (Operation.neverFlushes_counting .done) hover hcommit
  · exact ⟨rfl, _, _, hcall, htimeout, hover, hcommit, fun rest =>
      hslots _ (.inr (List.prefix_append _ rest))⟩
  · cases hdeserted

/-- The caller's own deadline passes when the body is done. -/
def ownDeadline : List Turn := [.serve .work, .serve .work, .giveUp]

/-- The caller is told that its call has timed out. The gate is open then, and the count is written
behind it. -/
theorem abandoned_call_writes :
    settableHandler.job settableProxy.identity ⟨"set", .empty, {}⟩ = .ok settableJob ∧
    callSet ownDeadline = (.fail (.timeout "set" 10), Memory.empty) ∧
    (settableAfter ownDeadline).race.gate = .running ∧
    ((settableAfter ownDeadline).race.store.slots settableProxy.identity).contains 0 = false ∧
    ((settableAfter (ownDeadline ++ [.serve .work, .serve .work])).race.store.slots
      settableProxy.identity).contains 0 = true :=
  ⟨rfl, rfl, rfl, rfl, rfl⟩

end Errand
end ObjectSpace
