import ObjectSpace.Session.Basic

/-!
# Dispatch of calls from afar

Every call from afar is served by a worker in a session of its own, while the caller waits no longer
than a deadline. A gate decides between the two: the worker passes it before it commits, and at the
deadline the waiter closes it. Whoever comes first wins, so a call that has been given up is never
committed. `Race.step` is one step of either side, and `Race.settle` a whole call.
-/

namespace ObjectSpace

inductive Gate where
  | running
  | committing
  | abandoned
  deriving DecidableEq

/-- What the worker does next. -/
inductive Worker where
  | load
  | body
  | gate (payload : ByteArray)
  | commit (payload : ByteArray)
  | finished (o : Outcome SessionError ByteArray)

inductive Event where
  | work
  /-- The waiter takes what the worker has finished with. -/
  | join
  | deadline
  deriving DecidableEq

/-- A call to be served. -/
structure Job where
  registry : Registry
  operation : Operation
  target : Identity
  envelope : Envelope
  /-- In milliseconds. -/
  limit : Nat
  /-- What the waiter is told if the work crashes. -/
  crashText : String

structure Race (σ : Type) where
  gate : Gate
  worker : Worker
  session : Session
  store : σ
  /-- Whether the work has been held up beyond the deadline. -/
  late : Bool
  answer : Option (Except SessionError ByteArray)

namespace Race

variable {σ : Type}

def start (job : Job) (store : σ) : Race σ :=
  ⟨.running, .load, .empty job.target.partition, store, false, none⟩

def timedOut (job : Job) : SessionError := .timeout job.envelope.method job.limit

def finish (r : Race σ) (o : Outcome SessionError ByteArray) : Race σ :=
  { r with worker := .finished o }

def load (job : Job) (r : Race σ) : Race σ :=
  match r.session.load job.registry job.target.classId job.target with
  | .ok s => { r with session := s, worker := .body }
  | .error e => r.finish (.fail e)

def runBody [Store σ] (job : Job) (r : Race σ) : Race σ :=
  match r.session.object? job.target with
  | none => r.finish (.fail (.notResident job.target))
  | some o =>
    let (out, scene) := job.operation.tryInvoke job.registry job.envelope ⟨o, r.store, r.late⟩
    let r := { r with
      session := r.session.putBack scene.object
      store := scene.store
      late := scene.late }
    match out with
    | .ok payload => { r with worker := .gate payload }
    | .fail e => r.finish (.fail (.invoke e))
    | .crash => r.finish .crash

def passGate (job : Job) (payload : ByteArray) (r : Race σ) : Race σ :=
  if r.gate = .running then { r with gate := .committing, worker := .commit payload }
  else r.finish (.fail (timedOut job))

def commit [Store σ] (payload : ByteArray) (r : Race σ) : Race σ :=
  let (out, (s, store)) := Session.commit (r.session, r.store)
  let r := { r with session := s, store := store }
  match out with
  | .ok report => r.finish (.ofExcept (report.result.map fun _ => payload))
  | .crash => r.finish .crash

/-- One step of the worker, which does nothing more once it has finished. -/
def work [Store σ] (job : Job) (r : Race σ) : Race σ :=
  match r.worker with
  | .load => load job r
  | .body => runBody job r
  | .gate payload => passGate job payload r
  | .commit payload => commit payload r
  | .finished _ => r

/-- What the waiter makes of the way in which the worker ended. -/
def joined (job : Job) : Outcome SessionError ByteArray → Except SessionError ByteArray
  | .ok payload => .ok payload
  | .fail e => .error e
  | .crash => .error (.join job.crashText)

def join (job : Job) (r : Race σ) : Race σ :=
  match r.answer, r.worker with
  | none, .finished o => { r with answer := some (joined job o) }
  | _, _ => r

/-- Closes the gate if the worker has not passed it; otherwise the waiter goes on waiting. -/
def deadline (job : Job) (r : Race σ) : Race σ :=
  if r.answer.isNone && r.gate == .running then
    { r with gate := .abandoned, answer := some (.error (timedOut job)) }
  else r

def step [Store σ] (job : Job) (r : Race σ) : Event → Race σ
  | .work => work job r
  | .join => join job r
  | .deadline => deadline job r

def run [Store σ] (job : Job) (r : Race σ) (events : List Event) : Race σ :=
  events.foldl (step job) r

/-- The deadline passes while the body is held up, and at no other time. The worker runs on to its
end even when nobody waits for it. -/
def settle [Store σ] (job : Job) (r : Race σ) : Race σ :=
  let r := run job r [.work, .work]
  let r := if r.late then deadline job r else r
  run job r [.work, .work, .join]

end Race

/-- What serves calls: the services, the limit of calls that have none of their own, and what is told
of work that crashes. -/
structure Handler where
  catalog : Catalog
  callTimeout : Nat
  crashText : String

namespace Handler

variable {σ : Type}

def job (h : Handler) (target : Identity) (e : Envelope) : Except SessionError Job := do
  let op ← (h.catalog.operation target.classId e.method).mapError .invoke
  return ⟨h.catalog.registry, op, target, e, op.method.timeout.getD h.callTimeout, h.crashText⟩

/-- The payload of the result of a call. -/
def tryHandle [Store σ] (h : Handler) (target : Identity) (e : Envelope) :
    Run σ SessionError ByteArray := fun store =>
  match h.job target e with
  | .error err => (.fail err, store)
  | .ok job =>
    let r := (Race.start job store).settle job
    (.ofExcept (r.answer.getD (.error (Race.timedOut job))), r.store)

/-- The reply to a call; every failure becomes its report. -/
def handle [Store σ] (h : Handler) (target : Identity) (e : Envelope) : Run σ Empty Reply :=
  fun store =>
    match h.tryHandle target e store with
    | (.ok payload, store) => (.ok (.ok payload), store)
    | (.fail err, store) => (.ok (.failure err.report), store)
    | (.crash, store) => (.crash, store)

def debugText (h : Handler) : String :=
  "InvocationHandler \x7b services: " ++ toString h.catalog.size ++ " \x7d"

end Handler
end ObjectSpace
