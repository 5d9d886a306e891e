import ObjectSpace.Loopback
import ObjectSpace.Pool.Commit
import ObjectSpace.Space.Error

/-!
# Object spaces

A space puts the parts together: services under one catalog, settings, and from them the handler of
calls, the loopback that leads to it, and the rules by which its pool is used.
-/

namespace ObjectSpace

structure Space where
  settings : Settings
  catalog : Catalog

namespace Space

variable {σ : Type}

/-- A space has services, all of different classes, and settings without a fault. -/
def build (settings : Settings) (services : List Service) : Except SpaceError Space := do
  if services.isEmpty then .error .noServices
  match settings.fault? with
  | some f => .error (.session (.settings f))
  | none =>
    let catalog ← (Catalog.ofServices services).mapError .invoke
    return ⟨settings, catalog⟩

def registry (w : Space) : Registry := w.catalog.registry

def handler (w : Space) : Handler := ⟨w.catalog, w.settings.callTimeout, "the task crashed"⟩

def loopback (w : Space) : Loopback := (Loopback.unbound.bind w.handler).2

def connection (w : Space) (t : Transport σ) : Connection σ := ⟨t, w.settings.callTimeout⟩

/-! ## References -/

def proxy (w : Space) (t : Target) : Except SpaceError Proxy :=
  (w.registry.proxy t).mapError .proxy

/-- The proxy of an object that must be of the class. -/
def proxyFor (w : Space) (t : Target) (classId : String) : Except SpaceError Proxy := do
  let id ← (t.normalizeFor classId).mapError .mismatch
  (w.registry.materialize id classId).mapError .proxy

/-! ## Sessions -/

/-- The session that an owner uses where no partition is named. -/
def affinity (w : Space) (owner : Nat) : Affinity := ⟨owner, w.settings.partition⟩

/-- Works on an owner's session and commits it. -/
def scope [Store σ] (w : Space) (owner : Nat) (r : Run (Session × σ) SessionError α) :
    Run (Pool × σ) SpaceError α :=
  (Pool.scope (w.affinity owner) r).mapError .session

/-- Whether sessions are committed in the background from now on. -/
def startAutoCommit (w : Space) (obstacle : Option String) : Run (Pool × σ) SpaceError Bool :=
  if w.settings.autoCommit then do
    (Pool.startCommitter obstacle).mapError .session
    return true
  else pure false

/-! ## Texts -/

def debugText (w : Space) (p : Pool) : String :=
  "ObjWire \x7b services: " ++ toString w.catalog.size ++ ", sessions: " ++ toString p.size ++ " \x7d"

def registryText (w : Space) : String :=
  "IdentityRegistry \x7b classes: " ++ toString w.registry.classes.size ++ ", call_timeout: " ++
    Text.duration w.settings.callTimeout ++ " \x7d"

def poolText (w : Space) (p : Pool) : String :=
  "SessionManager \x7b sessions: " ++ toString p.size ++ ", config: " ++ w.settings.debugText ++ " \x7d"

end Space
end ObjectSpace
