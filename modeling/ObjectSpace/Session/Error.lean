import ObjectSpace.Service.Error
import ObjectSpace.Settings.Basic

/-!
# Failures of sessions
-/

namespace ObjectSpace

/-- What a commit has done. -/
structure CommitReport where
  flushed : Nat
  fields : Nat
  deleted : Nat
  failures : List (Identity × Report)
  deriving DecidableEq

namespace CommitReport

def empty : CommitReport := ⟨0, 0, 0, []⟩

def isSuccess (r : CommitReport) : Bool := r.failures.isEmpty

def isNoop (r : CommitReport) : Bool := r.flushed == 0 && r.deleted == 0 && r.failures.isEmpty

def merge (r s : CommitReport) : CommitReport :=
  ⟨r.flushed + s.flushed, r.fields + s.fields, r.deleted + s.deleted, r.failures ++ s.failures⟩

/-- One more object with this many fields written. -/
def addFlushed (r : CommitReport) (fields : Nat) : CommitReport :=
  { r with flushed := r.flushed + 1, fields := r.fields + fields }

def addDeleted (r : CommitReport) : CommitReport := { r with deleted := r.deleted + 1 }

def addFailure (r : CommitReport) (id : Identity) (report : Report) : CommitReport :=
  { r with failures := r.failures ++ [(id, report)] }

/-- The failures by identity. -/
def sorted (r : CommitReport) : CommitReport :=
  { r with failures := Ordered.sort (fun a b => compare a.1 b.1) r.failures }

end CommitReport

inductive SessionError where
  | settings (f : Settings.Fault)
  | missingIdentity (classId : String)
  | otherClass (id : Identity) (classId : String)
  | notResident (id : Identity)
  | timeout (method : String) (ms : Nat)
  | commit (r : CommitReport)
  | poisoned
  | noRuntime (reason : String)
  /-- The work crashed, as the text tells. -/
  | join (text : String)
  | mismatch (m : Mismatch)
  | schema (e : SchemaError)
  | codec (e : CodecError)
  | state (e : StateError)
  | proxy (e : ProxyError)
  | invoke (e : InvokeError)

namespace SessionError

def category : SessionError → Category
  | settings _ | missingIdentity _ | otherClass _ _ | mismatch _ | schema _ => .validation
  | notResident _ | commit _ | poisoned | noRuntime _ | join _ => .session
  | timeout _ _ => .timeout
  | codec e => e.category
  | state e => e.category
  | proxy e => e.category
  | invoke e => e.category

def message : SessionError → String
  | settings f => "invalid configuration: " ++ f.message
  | missingIdentity classId =>
    "no identity given for new " ++ classId ++ " object and local-only identities are disabled"
  | otherClass id classId => id.text ++ " is not an object of class " ++ classId
  | notResident id => id.text ++ " is not resident in this session"
  | timeout method ms => method ++ " timed out after " ++ Text.duration ms
  | commit r => "commit failed for " ++ toString r.failures.length ++ " object(s)"
  | poisoned => "session lock poisoned"
  | noRuntime reason => "no async runtime available: " ++ reason
  | join text => "blocking task failed: " ++ text
  | mismatch m => m.message
  | schema e => e.message
  | codec e => e.message
  | state e => e.message
  | proxy e => e.message
  | invoke e => e.message

/-- A failed commit names the objects that failed, each with the message of its failure. -/
def details : SessionError → Table String String
  | mismatch m => m.details
  | codec e => e.details
  | state e => e.details
  | proxy e => e.details
  | invoke e => e.details
  | commit r => Table.ofList (r.failures.map fun (id, report) => (id.text, report.message))
  | _ => {}

def report : SessionError → Report
  | proxy e => e.report
  | invoke e => Reported.report e
  | e => ⟨e.category.status, e.category, e.message, e.details⟩

instance : Reported SessionError where
  category := category
  message := message
  details := details
  report := report

end SessionError

/-- Fails if an object could not be written or deleted. -/
def CommitReport.result (r : CommitReport) : Except SessionError CommitReport :=
  if r.isSuccess then .ok r else .error (.commit r)

end ObjectSpace
