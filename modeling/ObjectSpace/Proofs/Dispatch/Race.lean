import ObjectSpace.Dispatch
import ObjectSpace.Proofs.Service.Invoke
import ObjectSpace.Proofs.Session.Noting

/-!
# The race between worker and waiter

The worker of a call reads the store until it has passed the gate, and the only thing it writes is
the batch of its target. The gate is passed by a call that has not been answered, and closed to a
call that has, so what is answered is what the store holds.
-/

namespace ObjectSpace

variable {σ : Type}

open Success

namespace Session

/-- The session of a worker, which holds its target and nothing else. -/
def serving (id : Identity) (o : Resident) : Session :=
  { empty id.partition with objects := Table.empty.insert id o }

theorem object?_serving (id : Identity) (o : Resident) : (serving id o).object? id = some o :=
  (Table.get?_insert _ _ _ _).trans (if_pos rfl)

theorem putBack_serving {id : Identity} {o o' : Resident} (h : o'.identity = id) :
    (serving id o).putBack o' = serving id o' := by
  have hobjects : (Table.empty.insert id o).insert o'.identity o' = Table.empty.insert id o' := by
    apply Table.ext_get?
    intro id'
    rw [Table.get?_insert, Table.get?_insert, Table.get?_insert, h]
    split <;> rfl
  unfold putBack serving
  dsimp only
  rw [hobjects]

theorem exists_load {r : Registry} {id : Identity} {s : Session}
    (h : load r (empty id.partition) id.classId id = .ok s) :
    ∃ cls, r.find id.classId = .ok cls ∧ s = serving id (.loaded id cls) := by
  obtain ⟨_, _, h⟩ := bind_eq_ok.1 h
  obtain ⟨_, _, h⟩ := bind_eq_ok.1 h
  obtain ⟨cls, hcls, h⟩ := bind_eq_ok.1 h
  cases h
  exact ⟨cls, mapError_eq_ok.1 hcls, rfl⟩

variable [Store σ]

/-- A commit of the session is a flush of the object. -/
theorem commit_serving (id : Identity) (o : Resident) (store : σ) :
    ∃ s', commit (serving id o, store) =
      (match (Resident.flush (o, store)).1 with
        | .ok n => .ok (if o.isDirty then CommitReport.empty.addFlushed n else .empty)
        | .fail e => .ok (CommitReport.empty.addFailure id (Reported.report e))
        | .crash => .crash,
      (s', (Resident.flush (o, store)).2.2)) := by
  have hkeys : (serving id o).objects.keys = [id] := rfl
  unfold commit
  dsimp only
  rw [hkeys, flushEach]
  dsimp only
  rw [object?_serving]
  dsimp only
  cases hd : o.isDirty with
  | false =>
    rw [Resident.flush_of_clean hd]
    exact ⟨_, rfl⟩
  | true =>
    rcases Resident.flush (o, store) with ⟨out, o', store'⟩
    cases out <;> exact ⟨_, rfl⟩

end Session

namespace Race

variable [Store σ]

variable {job : Job} {store : σ}

/-- What the body of a call ends with, and where. -/
def Ends (job : Job) (store : σ) (payload : ByteArray) (scene : Scene σ) : Prop :=
  ∃ cls, job.registry.find job.target.classId = .ok cls ∧
    job.operation.tryInvoke job.registry job.envelope ⟨.loaded job.target cls, store, false⟩ =
      (.ok payload, scene)

theorem Ends.identity {payload : ByteArray} {scene : Scene σ} (h : Ends job store payload scene) :
    scene.object.identity = job.target := by
  obtain ⟨cls, _, hrun⟩ := h
  have hid := (job.operation.changes job.registry job.envelope
    ⟨.loaded job.target cls, store, false⟩).identity
  rw [hrun] at hid
  exact hid

theorem Ends.reads (hop : job.operation.NeverFlushes) {payload : ByteArray} {scene : Scene σ}
    (h : Ends job store payload scene) : Store.Reads store scene.store := by
  obtain ⟨cls, _, hrun⟩ := h
  have hreads := hop.reads_store job.registry job.envelope ⟨.loaded job.target cls, store, false⟩
  rw [hrun] at hreads
  exact hreads

/-- What the worker of a call that began in front of `store` has come to, and what it has made of
its session and of the store. -/
inductive Progress (job : Job) (store : σ) : Worker → Session → σ → Bool → Prop
  | load : Progress job store .load (.empty job.target.partition) store false
  | body {cls : Class} (hc : job.registry.find job.target.classId = .ok cls) :
    Progress job store .body (.serving job.target (.loaded job.target cls)) store false
  | gate {payload : ByteArray} {scene : Scene σ} (hbody : Ends job store payload scene) :
    Progress job store (.gate payload) (.serving job.target scene.object) scene.store scene.late
  | commit {payload : ByteArray} {scene : Scene σ} (hbody : Ends job store payload scene) :
    Progress job store (.commit payload) (.serving job.target scene.object) scene.store scene.late
  | failed {out : Outcome SessionError ByteArray} {s : Session} {store' : σ} {late : Bool}
      (hout : out.isOk = false) (hreads : Store.Reads store store') :
    Progress job store (.finished out) s store' late
  | committed {payload : ByteArray} {scene : Scene σ} {out : Outcome SessionError ByteArray}
      {s : Session} (hbody : Ends job store payload scene)
      (hok : (Resident.flush (scene.object, scene.store)).1.isOk = true → out = .ok payload)
      (hnot : (Resident.flush (scene.object, scene.store)).1.isOk = false → out.isOk = false) :
    Progress job store (.finished out) s (Resident.flush (scene.object, scene.store)).2.2 scene.late

/-- The gate has not been passed: either nobody was answered, or it was closed with an error. -/
def Waiting (gate : Gate) (answer : Option (Except SessionError ByteArray)) : Prop :=
  gate = .running ∧ answer = none ∨ gate = .abandoned ∧ ∃ e, answer = some (.error e)

/-- The answer is that of the worker once the gate was passed, and an error until then. -/
def Agreed (job : Job) (gate : Gate) (answer : Option (Except SessionError ByteArray)) :
    Worker → Prop
  | .commit _ => gate = .committing ∧ answer = none
  | .finished out => gate = .committing ∧ (answer = none ∨ answer = some (joined job out)) ∨
    out.isOk = false ∧ ∀ a ∈ answer, ∃ e, a = .error e
  | _ => Waiting gate answer

structure Reached (job : Job) (store : σ) (r : Race σ) : Prop where
  progress : Progress job store r.worker r.session r.store r.late
  agreed : Agreed job r.gate r.answer r.worker

variable {r : Race σ} {gate : Gate}
  {answer : Option (Except SessionError ByteArray)}

theorem Waiting.error (h : Waiting gate answer) : ∀ a ∈ answer, ∃ e, a = .error e := by
  rcases h with ⟨_, rfl⟩ | ⟨_, e, rfl⟩
  · intro a ha
    cases ha
  · intro a ha
    cases ha
    exact ⟨e, rfl⟩

theorem Waiting.finished (h : Waiting gate answer) {out : Outcome SessionError ByteArray}
    (hout : out.isOk = false) : Agreed job gate answer (.finished out) := .inr ⟨hout, h.error⟩

/-! ## One step -/

theorem Reached.start (job : Job) (store : σ) : Reached job store (start job store) :=
  ⟨.load, .inl ⟨rfl, rfl⟩⟩

/-- At the deadline only an error is answered, and not to a call that has passed the gate. -/
theorem Reached.deadline (h : Reached job store r) : Reached job store (r.deadline job) := by
  unfold Race.deadline
  split
  case isTrue hopen =>
    obtain ⟨hanswer, hgate⟩ := Bool.and_eq_true_iff.1 hopen
    have hgate : r.gate = .running := eq_of_beq hgate
    refine ⟨h.progress, ?_⟩
    have hagreed := h.agreed
    cases hworker : r.worker with
    | commit payload =>
      rw [hworker, hgate] at hagreed
      cases hagreed.1
    | finished out =>
      rw [hworker, hgate] at hagreed
      rcases hagreed with ⟨hcommitting, _⟩ | ⟨hout, _⟩
      · cases hcommitting
      · exact Waiting.finished (.inr ⟨rfl, _, rfl⟩) hout
    | load | body | gate payload => exact .inr ⟨rfl, _, rfl⟩
  case isFalse => exact h

theorem exists_error_of_joined (job : Job) {out : Outcome SessionError ByteArray}
    (h : out.isOk = false) : ∃ e, joined job out = .error e := by
  cases out with
  | ok payload => cases h
  | fail e => exact ⟨e, rfl⟩
  | crash => exact ⟨.join job.crashText, rfl⟩

theorem Reached.join (h : Reached job store r) : Reached job store (r.join job) := by
  unfold Race.join
  split
  case h_1 out hanswer hworker =>
    refine ⟨h.progress, ?_⟩
    have hagreed := h.agreed
    rw [hworker, hanswer] at hagreed
    rw [hworker]
    rcases hagreed with ⟨hgate, _⟩ | ⟨hout, _⟩
    · exact .inl ⟨hgate, .inr rfl⟩
    · refine .inr ⟨hout, fun a ha => ?_⟩
      cases ha
      exact exists_error_of_joined job hout
  case h_2 => exact h

theorem Reached.load (hagreed : Waiting gate answer) :
    Reached job store
      (load job ⟨gate, .load, .empty job.target.partition, store, false, answer⟩) := by
  unfold Race.load
  dsimp only
  split
  case h_1 s' hload =>
    obtain ⟨cls, hcls, rfl⟩ := Session.exists_load hload
    exact ⟨.body hcls, hagreed⟩
  case h_2 => exact ⟨.failed rfl .refl, hagreed.finished rfl⟩

theorem Reached.runBody (hop : job.operation.NeverFlushes) {cls : Class}
    (hcls : job.registry.find job.target.classId = .ok cls) (hagreed : Waiting gate answer) :
    Reached job store (runBody job
      ⟨gate, .body, .serving job.target (.loaded job.target cls), store, false, answer⟩) := by
  have hreads := hop.reads_store job.registry job.envelope ⟨.loaded job.target cls, store, false⟩
  unfold Race.runBody
  dsimp only
  rw [Session.object?_serving]
  dsimp only
  rcases hrun : job.operation.tryInvoke job.registry job.envelope
    ⟨.loaded job.target cls, store, false⟩ with ⟨out, scene⟩
  rw [hrun] at hreads
  cases out with
  | ok payload =>
    have hbody : Ends job store payload scene := ⟨cls, hcls, hrun⟩
    have hgate := Progress.gate hbody
    rw [← Session.putBack_serving (o := .loaded job.target cls) hbody.identity] at hgate
    exact ⟨hgate, hagreed⟩
  | fail e => exact ⟨.failed rfl hreads, hagreed.finished rfl⟩
  | crash => exact ⟨.failed rfl hreads, hagreed.finished rfl⟩

theorem Reached.passGate (hop : job.operation.NeverFlushes) {payload : ByteArray} {scene : Scene σ}
    (hbody : Ends job store payload scene) (hagreed : Waiting gate answer) :
    Reached job store (passGate job payload ⟨gate, .gate payload,
      .serving job.target scene.object, scene.store, scene.late, answer⟩) := by
  unfold Race.passGate
  dsimp only
  split
  case isTrue hgate =>
    rcases hagreed with ⟨_, rfl⟩ | ⟨habandoned, _⟩
    · exact ⟨.commit hbody, rfl, rfl⟩
    · cases hgate.symm.trans habandoned
  case isFalse => exact ⟨.failed rfl (hbody.reads hop), hagreed.finished rfl⟩

theorem Reached.commit {payload : ByteArray} {scene : Scene σ}
    (hbody : Ends job store payload scene) :
    Reached job store (commit payload ⟨.committing, .commit payload,
      .serving job.target scene.object, scene.store, scene.late, none⟩) := by
  obtain ⟨s', hcommit⟩ := Session.commit_serving job.target scene.object scene.store
  unfold Race.commit
  dsimp only
  rw [hcommit]
  cases hflush : (Resident.flush (scene.object, scene.store)).1 with
  | ok n =>
    refine ⟨.committed hbody (fun _ => ?_) (fun hnot => ?_), .inl ⟨rfl, .inl rfl⟩⟩
    · cases scene.object.isDirty <;> rfl
    · rw [hflush] at hnot
      cases hnot
  | fail e =>
    refine ⟨.committed hbody (fun hok => ?_) (fun _ => rfl), .inl ⟨rfl, .inl rfl⟩⟩
    rw [hflush] at hok
    cases hok
  | crash =>
    refine ⟨.committed hbody (fun hok => ?_) (fun _ => rfl), .inl ⟨rfl, .inl rfl⟩⟩
    rw [hflush] at hok
    cases hok

/-- One step of the worker, each of which ends in the next or in a failure. -/
theorem Reached.work (hop : job.operation.NeverFlushes) (h : Reached job store r) :
    Reached job store (r.work job) := by
  obtain ⟨gate, worker, s, store', late, answer⟩ := r
  obtain ⟨hprogress, hagreed⟩ := h
  dsimp only at hprogress hagreed
  cases hprogress with
  | load => exact .load hagreed
  | body hcls => exact .runBody hop hcls hagreed
  | gate hbody => exact .passGate hop hbody hagreed
  | commit hbody =>
    obtain ⟨rfl, rfl⟩ := hagreed
    exact .commit hbody
  | failed hout hreads => exact ⟨.failed hout hreads, hagreed⟩
  | committed hbody hok hnot => exact ⟨.committed hbody hok hnot, hagreed⟩

theorem Reached.step (hop : job.operation.NeverFlushes) (h : Reached job store r) (e : Event) :
    Reached job store (step job r e) := by
  cases e with
  | work => exact h.work hop
  | join => exact h.join
  | deadline => exact h.deadline

/-! ## Any number of steps -/

theorem Reached.run (hop : job.operation.NeverFlushes) (h : Reached job store r)
    (events : List Event) : Reached job store (run job r events) := by
  induction events generalizing r with
  | nil => exact h
  | cons e events ih => exact ih (h.step hop e)

theorem run_append (job : Job) (r : Race σ) (events rest : List Event) :
    Race.run job r (events ++ rest) = Race.run job (Race.run job r events) rest :=
  List.foldl_append

/-- The steps that the worker has before it. -/
def stepsLeft : Worker → Nat
  | .load => 4
  | .body => 3
  | .gate _ => 2
  | .commit _ => 1
  | .finished _ => 0

/-- A step of the worker: it neither answers nor closes the gate, and comes nearer to its end. -/
structure Advances (r r' : Race σ) : Prop where
  answer : r'.answer = r.answer
  gate : r'.gate = r.gate ∨ r'.gate = .committing
  left : stepsLeft r'.worker ≤ stepsLeft r.worker - 1

theorem advances_work (job : Job) (r : Race σ) : Advances r (work job r) := by
  unfold work
  split
  case h_1 hworker =>
    unfold load
    split
    · exact ⟨rfl, .inl rfl, hworker ▸ Nat.le_refl 3⟩
    · exact ⟨rfl, .inl rfl, Nat.zero_le _⟩
  case h_2 hworker =>
    unfold runBody
    split
    · exact ⟨rfl, .inl rfl, Nat.zero_le _⟩
    case h_2 o _ =>
      dsimp only
      rcases job.operation.tryInvoke job.registry job.envelope ⟨o, r.store, r.late⟩ with
        ⟨out, scene⟩
      cases out with
      | ok payload => exact ⟨rfl, .inl rfl, hworker ▸ Nat.le_refl 2⟩
      | fail e => exact ⟨rfl, .inl rfl, Nat.zero_le _⟩
      | crash => exact ⟨rfl, .inl rfl, Nat.zero_le _⟩
  case h_3 payload hworker =>
    unfold passGate
    split
    · exact ⟨rfl, .inr rfl, hworker ▸ Nat.le_refl 1⟩
    · exact ⟨rfl, .inl rfl, Nat.zero_le _⟩
  case h_4 payload hworker =>
    unfold commit
    rcases Session.commit (r.session, r.store) with ⟨out, s, store'⟩
    cases out with
    | ok report => exact ⟨rfl, .inl rfl, Nat.zero_le _⟩
    | fail e => exact e.elim
    | crash => exact ⟨rfl, .inl rfl, Nat.zero_le _⟩
  case h_5 out hworker => exact ⟨rfl, .inl rfl, hworker ▸ Nat.zero_le _⟩

theorem answer_work : (work job r).answer = r.answer := (advances_work job r).answer

/-- An answer stands. -/
theorem answer_run {a : Except SessionError ByteArray} (h : r.answer = some a)
    (events : List Event) : (Race.run job r events).answer = some a := by
  induction events generalizing r with
  | nil => exact h
  | cons e events ih =>
    refine ih ?_
    cases e with
    | work => exact answer_work.trans h
    | join =>
      unfold Race.step Race.join
      rw [h]
      exact h
    | deadline =>
      unfold Race.step Race.deadline
      rw [h]
      exact h

/-- The waiter leaves the worker alone. -/
theorem worker_step {e : Event} (he : e ≠ .work) : (step job r e).worker = r.worker := by
  cases e with
  | work => exact absurd rfl he
  | join =>
    change (r.join job).worker = _
    unfold join
    split <;> rfl
  | deadline =>
    change (deadline job r).worker = _
    unfold deadline
    split <;> rfl

/-- The worker has nothing more to do. -/
theorem worker_run {out : Outcome SessionError ByteArray} (h : r.worker = .finished out)
    (events : List Event) : (Race.run job r events).worker = .finished out := by
  induction events generalizing r with
  | nil => exact h
  | cons e events ih =>
    refine ih ?_
    cases e with
    | work =>
      change (r.work job).worker = _
      unfold Race.work
      rw [h]
      exact h
    | join => exact (worker_step (e := .join) nofun).trans h
    | deadline => exact (worker_step (e := .deadline) nofun).trans h

theorem Agreed.worker {payload : ByteArray} {w : Worker}
    (h : Agreed job gate (some (.ok payload)) w) :
    w = .finished (.ok payload) := by
  have hwaiting : ¬ Waiting gate (some (.ok payload)) := by
    intro hw
    obtain ⟨e, he⟩ := hw.error _ rfl
    cases he
  cases w with
  | load | body | gate payload => exact absurd h hwaiting
  | commit payload => cases h.2
  | finished out =>
    rcases h with ⟨_, hnone | hjoined⟩ | ⟨_, herror⟩
    · cases hnone
    · cases out with
      | ok payload' =>
        cases hjoined
        rfl
      | fail e => cases hjoined
      | crash => cases hjoined
    · obtain ⟨e, he⟩ := herror _ rfl
      cases he

theorem Agreed.not_error {payload : ByteArray} {e : SessionError}
    (h : Agreed job gate (some (.error e)) (.finished (.ok payload))) : False := by
  rcases h with ⟨_, hnone | hjoined⟩ | ⟨hnot, _⟩
  · cases hnone
  · cases hjoined
  · cases hnot

section

variable [LawfulStore σ]

/-- The store holds what it held before, but for the fields that the body left dirty. -/
def Stored (job : Job) (store : σ) (payload : ByteArray) (store' : σ) : Prop :=
  ∃ scene b, Ends job store payload scene ∧ scene.object.batch = .ok b ∧
    ∀ id, LawfulStore.slots store' id =
      if id = job.target then (LawfulStore.slots store id).merge b else LawfulStore.slots store id

/-- The store has the fields of the target once the worker has finished with a result, and not
before. -/
theorem Reached.slots (hop : job.operation.NeverFlushes) (h : Reached job store r) :
    (∃ payload, r.worker = .finished (.ok payload) ∧ Stored job store payload r.store) ∨
      (∀ payload, r.worker ≠ .finished (.ok payload)) ∧
        LawfulStore.slots r.store = LawfulStore.slots store := by
  obtain ⟨gate, worker, s, store', late, answer⟩ := r
  have hprogress := h.progress
  dsimp only at hprogress ⊢
  cases hprogress with
  | load => exact .inr ⟨by simp, rfl⟩
  | body => exact .inr ⟨by simp, rfl⟩
  | gate hbody => exact .inr ⟨by simp, (hbody.reads hop).slots⟩
  | commit hbody => exact .inr ⟨by simp, (hbody.reads hop).slots⟩
  | failed hout hreads =>
    refine .inr ⟨fun payload hw => ?_, hreads.slots⟩
    cases hw
    cases hout
  | @committed payload scene out s hbody hok hnot =>
    cases hflush : (Resident.flush (scene.object, scene.store)).1.isOk with
    | true =>
      obtain rfl := hok hflush
      obtain ⟨n, hn⟩ := Outcome.isOk_iff.1 hflush
      obtain ⟨b, hb, hslots⟩ := Resident.exists_batch_of_flush hn
      refine .inl ⟨payload, rfl, scene, b, hbody, hb, fun id => ?_⟩
      rw [hslots id, (hbody.reads hop).slots, hbody.identity]
    | false =>
      have hout := hnot hflush
      refine .inr ⟨fun payload hw => ?_,
        (Resident.slots_of_flush hflush).trans (hbody.reads hop).slots⟩
      cases hw
      cases hout

/-- Once the store has changed no error is answered. -/
theorem slots_of_error (hop : job.operation.NeverFlushes) (h : Reached job store r)
    (events : List Event) {e : SessionError}
    (he : (Race.run job r events).answer = some (.error e)) :
    LawfulStore.slots r.store = LawfulStore.slots store := by
  rcases h.slots hop with ⟨payload, hworker, _⟩ | ⟨_, hslots⟩
  · have hagreed := (h.run hop events).agreed
    rw [worker_run hworker, he] at hagreed
    exact hagreed.not_error.elim
  · exact hslots

end

/-! ## What is asked of the store -/

theorem asked_of_reads {n n' : Noting σ} (h : Store.Reads n n') : n'.asked = n.asked := by
  induction h with
  | refl => rfl
  | tail _ hstep ih =>
    obtain ⟨id, i, rfl⟩ := hstep
    exact ih

/-- The store is asked for the batch of the target, and for no other write. -/
theorem Reached.asked {n : Noting σ} {r : Race (Noting σ)} (hop : job.operation.NeverFlushes)
    (h : Reached job n r) :
    r.store.asked = n.asked ∨ ∃ b, r.store.asked = n.asked ++ [.put job.target b] := by
  obtain ⟨gate, worker, s, store', late, answer⟩ := r
  have hprogress := h.progress
  dsimp only at hprogress ⊢
  cases hprogress with
  | load => exact .inl rfl
  | body => exact .inl rfl
  | gate hbody => exact .inl (asked_of_reads (hbody.reads hop))
  | commit hbody => exact .inl (asked_of_reads (hbody.reads hop))
  | failed hout hreads => exact .inl (asked_of_reads hreads)
  | @committed payload scene out s hbody hok hnot =>
    rw [Resident.flush_noting]
    change scene.store.asked ++ scene.object.write?.toList = _ ∨
      ∃ b, scene.store.asked ++ scene.object.write?.toList = _
    rw [asked_of_reads (hbody.reads hop), ← hbody.identity]
    rcases scene.object.write?_cases with ⟨_, hw⟩ | ⟨_, _, _, hw⟩ | ⟨b, _, _, hw⟩
    · exact .inl (by rw [hw]; exact List.append_nil _)
    · exact .inl (by rw [hw]; exact List.append_nil _)
    · exact .inr ⟨b, by rw [hw]; rfl⟩

/-- Whatever the order of the steps of worker and waiter: the store is asked for one batch at most;
behind an answer with a result it holds the fields that the body left dirty; and a call that is
answered with an error changes nothing in it, neither before nor after the answer. -/
theorem answer_matches_store [LawfulStore σ] (job : Job) (hop : job.operation.NeverFlushes)
    (store : σ) (events : List Event) :
    let start : Race (Noting σ) := Race.start job ⟨store, []⟩
    let r := Race.run job start events
    (r.store.asked = [] ∨ ∃ b, r.store.asked = [.put job.target b]) ∧
      (∀ payload, r.answer = some (.ok payload) → Stored job start.store payload r.store) ∧
      ∀ e, r.answer = some (.error e) → ∀ other, other <+: events ∨ events <+: other →
        LawfulStore.slots (Race.run job start other).store = LawfulStore.slots start.store := by
  intro start r
  have hreached : ∀ other, Reached job start.store (Race.run job start other) :=
    fun other => (Reached.start job start.store).run hop other
  refine ⟨(hreached events).asked hop, fun payload hpayload => ?_, fun e he other hother => ?_⟩
  · have hagreed := (hreached events).agreed
    rw [hpayload] at hagreed
    rcases (hreached events).slots hop with ⟨payload', hworker, hstored⟩ | ⟨hnot, _⟩
    · cases hagreed.worker.symm.trans hworker
      exact hstored
    · exact absurd hagreed.worker (hnot payload)
  · rcases hother with ⟨rest, rfl⟩ | ⟨rest, rfl⟩
    · have he : (Race.run job start (other ++ rest)).answer = some (.error e) := he
      rw [run_append] at he
      exact slots_of_error hop (hreached other) rest he
    · have hstands : (Race.run job (Race.run job start events) rest).answer = some (.error e) :=
        answer_run he rest
      rw [← run_append] at hstands
      exact slots_of_error hop (hreached (events ++ rest)) [] hstands

/-! ## A counter that is set -/

/-- A call of a method without arguments of the first counter. -/
def countingJob (rest : Action Value) : Job where
  registry := ⟨Table.empty.insert "Counter" Class.counter⟩
  operation := .counting "set" .any rest
  target := ⟨"Counter", 0, 1⟩
  envelope := ⟨"set", .empty, {}⟩
  limit := 10
  crashText := "crashed"

/-- The deadline passes when the worker has passed the gate, but has not committed yet. -/
def lateDeadline : List Event := [.work, .work, .work, .deadline, .work, .join]

def countingRace : Race (Noting Memory) :=
  Race.run (countingJob (.done .null)) (start (countingJob (.done .null)) ⟨.empty, []⟩)
    lateDeadline

theorem exists_answer_counting : ∃ payload, countingRace.answer = some (.ok payload) := by
  have hsome : (countingRace.answer.bind Except.toOption).isSome = true := by decide +kernel
  obtain ⟨payload, hpayload⟩ := Option.isSome_iff_exists.1 hsome
  obtain ⟨answer, hanswer, hok⟩ := Option.bind_eq_some_iff.1 hpayload
  cases answer with
  | ok _ => exact ⟨_, hanswer⟩
  | error _ => cases hok

theorem answer_matches_store_counting : ∃ payload, countingRace.answer = some (.ok payload) ∧
    Stored (countingJob (.done .null)) ⟨.empty, []⟩ payload countingRace.store := by
  obtain ⟨_, hok, _⟩ := answer_matches_store (countingJob (.done .null))
    (Operation.neverFlushes_counting .done) Memory.empty lateDeadline
  obtain ⟨payload, hpayload⟩ := exists_answer_counting
  exact ⟨payload, hpayload, hok payload hpayload⟩

/-- A body that flushes its object and then fails. -/
def flushing : Action Value := do
  let _ ← Action.ask .flush
  .fail (.ofMessage "refused")

/-- What such a body has flushed stays in the store, although an error is answered. -/
theorem error_changes_store :
    let r := Race.run (countingJob flushing) (Race.start (countingJob flushing) Memory.empty)
      [.work, .work, .join]
    (∃ e, r.answer = some (.error e)) ∧
      LawfulStore.slots Memory.empty (countingJob flushing).target = {} ∧
      LawfulStore.slots r.store (countingJob flushing).target ≠ {} := by
  intro r
  have hslot : ((LawfulStore.slots r.store (countingJob flushing).target).get? 0).isSome = true :=
    rfl
  refine ⟨⟨_, rfl⟩, rfl, fun hempty => ?_⟩
  rw [hempty] at hslot
  cases hslot

end Race
end ObjectSpace
