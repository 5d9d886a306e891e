import ObjectSpace.Dispatch

/-!
# Calls out of a session

An object in the session is called where it is, on a copy that takes its place only if the call
succeeds. Other objects are called from afar.
-/

namespace ObjectSpace
namespace Session

variable {σ : Type}

/-- Invokes on a copy of a resident object. -/
def invokeCopy [Store σ] (r : Registry) (op : Operation) (id : Identity) (e : Envelope) :
    Run (Session × σ) SessionError ByteArray := fun (s, store) =>
  match s.object? id with
  | none => (.fail (.notResident id), (s, store))
  | some o =>
    match op.tryInvoke r e ⟨o, store, false⟩ with
    | (.ok payload, scene) => (.ok payload, (s.putBack scene.object, scene.store))
    | (.fail err, scene) => (.fail (.invoke err), (s, scene.store))
    | (.crash, scene) => (.crash, (s, scene.store))

/-- Calls a resident object. -/
def invokeLocal [Store σ] (c : Catalog) (id : Identity) (method : String) (arg : Value) :
    Run (Session × σ) SessionError Value := do
  let op ← .ofExcept ((c.operation id.classId method).mapError .invoke)
  let payload ← .ofExcept ((op.method.encodeCall arg).mapError fun e => .proxy (.codec e))
  let bytes ← invokeCopy c.registry op id ⟨method, payload, {}⟩
  .ofExcept ((op.method.returns.decode "return" bytes).mapError .codec)

/-- Calls an object wherever it is. -/
def call [Store σ] (c : Catalog) (conn : Connection σ) (t : Target) (method : String)
    (arg : Value) : Run (Session × σ) SessionError Value := do
  let id ← .ofExcept (t.normalize.mapError .mismatch)
  let (s, _) ← Run.getState
  if s.isResident id then invokeLocal c id method arg
  else
    let p ← .ofExcept ((c.registry.materialize id id.classId).mapError .proxy)
    ((p.call conn method arg {}).mapError .proxy).onSecond

end Session
end ObjectSpace
