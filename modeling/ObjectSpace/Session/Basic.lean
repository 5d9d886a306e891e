import ObjectSpace.Service.Catalog
import ObjectSpace.Session.Error

/-!
# Sessions

A session holds objects in memory and the identities of those that are to be deleted. Nothing
reaches the store before the session is committed.
-/

namespace ObjectSpace

structure Session where
  partition : UInt32
  objects : Table Identity Resident
  deletions : KeySet Identity

namespace Session

variable {σ : Type}

def empty (partition : UInt32) : Session := ⟨partition, {}, {}⟩

instance : Inhabited Session := ⟨empty 0⟩

def object? (s : Session) (id : Identity) : Option Resident := s.objects.get? id

def isResident (s : Session) (id : Identity) : Bool := s.objects.contains id

def isEmpty (s : Session) : Bool := s.objects.isEmpty && s.deletions.isEmpty

def isDirty (s : Session) : Bool := !s.deletions.isEmpty || s.objects.values.any Resident.isDirty

/-! ## Lifecycle -/

def checkClass (id : Identity) (classId : String) : Except SessionError Unit :=
  if id.classId = classId then .ok () else .error (.otherClass id classId)

/-- The identity of a new object: the one that is given, or a new number in the session's
partition where settings allow it. -/
def identityFor (s : Session) (localOnly : Bool) (fresh : UInt64) (classId : String) :
    Option Identity → Except SessionError Identity
  | some id => do
    checkClass id classId
    id.validate.mapError .mismatch
    return id
  | none =>
    if localOnly then .ok ⟨classId, s.partition, fresh⟩ else .error (.missingIdentity classId)

/-- Makes a new object. One that was to be deleted is not any more. -/
def create (r : Registry) (localOnly : Bool) (fresh : UInt64) (s : Session) (classId : String)
    (id? : Option Identity) : Except SessionError (Identity × Session) := do
  let c ← (r.find classId).mapError .schema
  let id ← s.identityFor localOnly fresh classId id?
  return (id, { s with
    objects := s.objects.insert id (.created id c)
    deletions := s.deletions.erase id })

/-- Brings an object in, unless it is there already. Its deletion, if it waits for one, is
not withdrawn. -/
def load (r : Registry) (s : Session) (classId : String) (id : Identity) :
    Except SessionError Session := do
  checkClass id classId
  id.validate.mapError .mismatch
  if s.isResident id then return s
  let c ← (r.find classId).mapError .schema
  return { s with objects := s.objects.insert id (.loaded id c) }

/-- Whether this changed anything. -/
def delete (s : Session) (id : Identity) : Bool × Session :=
  (s.isResident id || !s.deletions.contains id,
    { s with objects := s.objects.erase id, deletions := s.deletions.add id })

def putBack (s : Session) (o : Resident) : Session :=
  { s with objects := s.objects.insert o.identity o }

/-- Works on a resident object. -/
def onObject (id : Identity) (r : Run (Resident × σ) StateError α) :
    Run (Session × σ) SessionError α := fun (s, store) =>
  match s.object? id with
  | none => (.fail (.notResident id), (s, store))
  | some o =>
    let (out, (o, store)) := r (o, store)
    (out.mapError .state, (s.putBack o, store))

/-- Where an object is: in the session, or anywhere else behind a proxy. -/
inductive Found where
  | here (o : Resident)
  | elsewhere (p : Proxy)

def resolve (r : Registry) (s : Session) (t : Target) : Except SessionError Found := do
  let id ← t.normalize.mapError .mismatch
  match s.object? id with
  | some o => return .here o
  | none => return .elsewhere (← (r.materialize id id.classId).mapError .proxy)

/-! ## Committing -/

/-- Writes the dirty ones of the objects with these identities, one batch each. -/
def flushEach [Store σ] (report : CommitReport) :
    List Identity → Run (Session × σ) Empty CommitReport
  | [] => pure report
  | id :: ids => fun (s, store) =>
    match s.object? id with
    | none => flushEach report ids (s, store)
    | some o =>
      if o.isDirty then
        match Resident.flush (o, store) with
        | (.ok written, (o, store)) =>
          flushEach (report.addFlushed written) ids (s.putBack o, store)
        | (.fail e, (o, store)) =>
          flushEach (report.addFailure id (Reported.report e)) ids (s.putBack o, store)
        | (.crash, (o, store)) => (.crash, (s.putBack o, store))
      else flushEach report ids (s, store)

/-- Deletes objects; those that could not be deleted are queued again. -/
def deleteEach [Store σ] (report : CommitReport) (kept : KeySet Identity) :
    List Identity → Run (Session × σ) Empty CommitReport
  | [] => fun (s, store) => (.ok report, ({ s with deletions := kept }, store))
  | id :: ids => fun (s, store) =>
    match Store.delete id store with
    | (.ok _, store) => deleteEach report.addDeleted kept ids (s, store)
    | (.fail e, store) =>
      deleteEach (report.addFailure id (Reported.report e)) (kept.add id) ids (s, store)
    | (.crash, store) => (.crash, (s, store))

/-- Writes all dirty objects and applies all deletions. An object that fails does not keep the
others from being committed. -/
def commit [Store σ] : Run (Session × σ) Empty CommitReport := fun (s, store) =>
  match flushEach .empty s.objects.keys (s, store) with
  | (.ok report, (s, store)) =>
    deleteEach report {} s.deletions.keys ({ s with deletions := {} }, store)
  | (o, t) => (o, t)

def debugText (s : Session) : String :=
  "Session \x7b partition_id: " ++ toString s.partition.toNat ++ ", resident: " ++
    toString s.objects.size ++ ", pending_deletes: " ++ toString s.deletions.size ++ " \x7d"

end Session
end ObjectSpace
