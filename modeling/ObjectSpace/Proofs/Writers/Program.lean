import ObjectSpace.Dispatch
import ObjectSpace.Proofs.Object.Over
import ObjectSpace.Session.Call

/-!
# Writers

A writer has a session and the copy of an object that a call works on. It makes one move after the
other, and a move reaches for the store at most once, so writers that share a store can come between
each other's moves, but not into the middle of one. Commits, calls within a session, calls from afar
and writes through an accessor are programs of moves.
-/

namespace ObjectSpace

/-- What a writer has before it. -/
structure Desk where
  session : Session
  /-- The object that a call within the session works on. -/
  copy : Option Resident

/-- Where a writer finds an object. -/
inductive Place where
  | session (id : Identity)
  | copy

namespace Desk

def empty (partition : UInt32) : Desk := ⟨.empty partition, none⟩

def object? (d : Desk) : Place → Option Resident
  | .session id => d.session.object? id
  | .copy => d.copy

def putBack (d : Desk) (o : Resident) : Place → Desk
  | .session _ => { d with session := d.session.putBack o }
  | .copy => { d with copy := some o }

end Desk

inductive Move where
  | look
  | create (fresh : UInt64) (classId : String) (id? : Option Identity)
  | load (classId : String) (id : Identity)
  | ask (p : Place) (r : Request)
  /-- Copies an object of the session. -/
  | take (id : Identity)
  /-- The copy takes the place of the object. -/
  | keep
  /-- Writes one field of an object that may be anywhere. -/
  | write (p : Proxy) (accessor : String) (v : Value)

abbrev Move.Answer : Move → Type
  | look => Session
  | create _ _ _ => Except SessionError Identity
  | load _ _ => Except SessionError Unit
  | ask _ r => Option (Except StateError r.Answer)
  | take _ => Option Resident
  | keep => Unit
  | write _ _ _ => Except ProxyError Value

namespace Move

variable {σ : Type} [Store σ]

/-- Works on an object, if it is there. -/
def askAt (registry : Registry) (p : Place) (r : Request) :
    Run (Desk × σ) Empty (Option (Except StateError r.Answer)) := fun (d, store) =>
  match d.object? p with
  | none => (.ok none, (d, store))
  | some o =>
    match r.run registry (o, store) with
    | (.ok a, (o, store)) => (.ok (some (.ok a)), (d.putBack o p, store))
    | (.fail e, (o, store)) => (.ok (some (.error e)), (d.putBack o p, store))
    | (.crash, (o, store)) => (.crash, (d.putBack o p, store))

def run (registry : Registry) (localOnly : Bool) : (m : Move) → Run (Desk × σ) Empty m.Answer
  | look, (d, store) => (.ok d.session, (d, store))
  | create fresh classId id?, (d, store) =>
    match d.session.create registry localOnly fresh classId id? with
    | .ok (id, s) => (.ok (.ok id), ({ d with session := s }, store))
    | .error e => (.ok (.error e), (d, store))
  | load classId id, (d, store) =>
    match d.session.load registry classId id with
    | .ok s => (.ok (.ok ()), ({ d with session := s }, store))
    | .error e => (.ok (.error e), (d, store))
  | ask p r, t => askAt registry p r t
  | take id, (d, store) =>
    (.ok (d.session.object? id), ({ d with copy := d.session.object? id }, store))
  | keep, (d, store) =>
    match d.copy with
    | some o => (.ok (), ({ d with session := d.session.putBack o }, store))
    | none => (.ok (), (d, store))
  | write p accessor v, (d, store) =>
    match p.write accessor v store with
    | (.ok v, store) => (.ok (.ok v), (d, store))
    | (.fail e, store) => (.ok (.error e), (d, store))
    | (.crash, store) => (.crash, (d, store))

end Move

/-- What a writer does, one move after the other. -/
inductive Program (α : Type) where
  | done (a : α)
  | fail (e : SessionError)
  | crash
  | perform (m : Move) (next : m.Answer → Program α)

namespace Program

variable {α β σ : Type}

def run [Store σ] (registry : Registry) (localOnly : Bool) :
    Program α → Run (Desk × σ) SessionError α
  | done a, t => (.ok a, t)
  | fail e, t => (.fail e, t)
  | crash, t => (.crash, t)
  | perform m next, t =>
    match m.run registry localOnly t with
    | (.ok a, t) => run registry localOnly (next a) t
    | (.crash, t) => (.crash, t)

def ofExcept : Except SessionError α → Program α
  | .ok a => done a
  | .error e => fail e

/-- Goes on with the end of a program, unless it crashes. -/
def andThen (p : Program α) (next : Except SessionError α → Program β) : Program β :=
  match p with
  | done a => next (.ok a)
  | fail e => next (.error e)
  | crash => crash
  | perform m rest => perform m fun a => (rest a).andThen next

/-- Flushes objects of the session, one move each. -/
def flushEach (report : CommitReport) : List Identity → Program CommitReport
  | [] => done report
  | id :: ids => perform .look fun s =>
    match s.object? id with
    | none => flushEach report ids
    | some o =>
      if o.isDirty then
        perform (.ask (.session id) .flush) fun
          | some (.ok written) => flushEach (report.addFlushed written) ids
          | some (.error e) => flushEach (report.addFailure id (Reported.report e)) ids
          | none => flushEach report ids
      else flushEach report ids

/-- A commit of a session that has nothing to delete. -/
def commit : Program CommitReport := perform .look fun s => flushEach .empty s.objects.keys

/-- Asks an object what an action asks of it. -/
def ofAction (p : Place) : Action α → Program (Except ApplicationError α)
  | .done a => done (.ok a)
  | .fail e => done (.error e)
  | .crash => crash
  | .pause rest => ofAction p rest
  | .perform r next => perform (.ask p r) fun
    | some x => ofAction p (next x)
    | none => crash

/-- Invokes an operation on an object with this identity. -/
def invoke (p : Place) (op : Operation) (target : Identity) (e : Envelope) :
    Program (Except InvokeError ByteArray) :=
  match op.decodeArguments e.payload with
  | .error err => done (.error err)
  | .ok args => (ofAction p (op.body args ⟨target, e.method, e.options⟩)).andThen fun
    | .ok (.ok v) => done (op.encodeResult v)
    | .ok (.error err) => done (.error (.application err))
    | .error err => fail err

/-- A call of an object of the session, on a copy that is kept if the call succeeds. -/
def invokeLocal (c : Catalog) (id : Identity) (method : String) (arg : Value) : Program Value :=
  match c.operation id.classId method with
  | .error e => fail (.invoke e)
  | .ok op =>
    match op.method.encodeCall arg with
    | .error e => fail (.proxy (.codec e))
    | .ok payload => perform (.take id) fun
      | none => fail (.notResident id)
      | some o => (invoke .copy op o.identity ⟨method, payload, {}⟩).andThen fun
        | .ok (.ok bytes) => perform .keep fun () =>
          ofExcept ((op.method.returns.decode "return" bytes).mapError .codec)
        | .ok (.error err) => fail (.invoke err)
        | .error err => fail err

/-- The commit of a call from afar, if its caller still waits. -/
def passGate (job : Job) (isOpen : Bool) (payload : ByteArray) : Program ByteArray :=
  if isOpen then commit.andThen fun
    | .ok report => ofExcept (report.result.map fun _ => payload)
    | .error err => fail err
  else fail (Race.timedOut job)

/-- A call from afar, in a session of its own. The gate is open if the caller still waits. -/
def serve (job : Job) (isOpen : Bool) : Program ByteArray :=
  perform (.load job.target.classId job.target) fun
    | .error e => fail e
    | .ok () => (invoke (.session job.target) job.operation job.target job.envelope).andThen fun
      | .ok (.ok payload) => passGate job isOpen payload
      | .ok (.error err) => fail (.invoke err)
      | .error err => fail err

/-- A write through an accessor. -/
def write (p : Proxy) (accessor : String) (v : Value) : Program Value :=
  perform (.write p accessor v) fun x => ofExcept (x.mapError .proxy)

end Program
end ObjectSpace
