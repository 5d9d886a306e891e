import ObjectSpace.Object.Resident
import ObjectSpace.Service.Error

/-!
# Actions

What a method body does is a tree: it asks its own object for something, goes on with the answer,
and ends with a result, a failure, or a crash. A body may also be held up longer than any caller
waits. Running an action keeps what was done to the object, however it ends.
-/

namespace ObjectSpace

/-- What a body can ask of its object. -/
inductive Request where
  | get (field : String)
  | set (field : String) (v : Value)
  | read (accessor : String)
  | write (accessor : String) (v : Value)
  | setReference (field : String) (t : Target)
  | reference (field : String)
  | clearReference (field : String)
  | invalidate (field : String)
  | flush
  | isDirty
  | dirtyFields
  | asReference
  /-- Where a field stands between the store and the memory. -/
  | phase (field : String)
  /-- All that is in memory. -/
  | state

abbrev Request.Answer : Request → Type
  | get _ | set _ _ | read _ | write _ _ => Value
  | setReference _ _ => Identity
  | reference _ => Option Proxy
  | clearReference _ | invalidate _ => Unit
  | flush => Nat
  | isDirty => Bool
  | dirtyFields => List String
  | asReference => Proxy
  | phase _ => Phase
  | state => FieldState

inductive Action (α : Type) where
  | done (a : α)
  | fail (e : ApplicationError)
  | crash
  | pause (rest : Action α)
  | perform (r : Request) (next : Except StateError r.Answer → Action α)

namespace Action

variable {α β σ : Type}

protected def bind : Action α → (α → Action β) → Action β
  | done a, f => f a
  | fail e, _ => fail e
  | crash, _ => crash
  | pause rest, f => pause (rest.bind f)
  | perform r next, f => perform r fun x => (next x).bind f

instance : Monad Action where
  pure := done
  bind := Action.bind

def ofExcept [Reported ε] : Except ε α → Action α
  | .ok a => done a
  | .error e => fail (.ofReported e)

/-- Asks the object, and fails if it cannot answer. -/
def ask (r : Request) : Action r.Answer := perform r ofExcept

end Action

/-- An object at work, in front of its store. `late` once the work has been held up. -/
structure Scene (σ : Type) where
  object : Resident
  store : σ
  late : Bool

namespace Scene

variable {σ : Type}

def onObject (r : Run (Resident × σ) ε α) : Run (Scene σ) ε α := fun s =>
  let (o, (object, store)) := r (s.object, s.store)
  (o, { s with object := object, store := store })

end Scene

/-- A change of an object with a result. -/
def Resident.change (f : Resident → Except StateError (α × Resident)) :
    Run (Resident × σ) StateError α := Run.onFirst (Run.update f)

/-- Something that is seen of an object as it stands. -/
def Resident.look (f : Resident → Except StateError α) : Run (Resident × σ) StateError α :=
  fun (o, s) => (.ofExcept (f o), (o, s))

def Request.run [Store σ] (registry : Registry) : (r : Request) → Run (Resident × σ) StateError r.Answer
  | get field => Resident.get field
  | set field v => Resident.change fun o => o.set field v
  | read accessor => Resident.read accessor
  | write accessor v => Resident.change fun o => o.write accessor v
  | setReference field t => Resident.change fun o => o.setReference field t
  | reference field => Resident.reference registry field
  | clearReference field => Resident.change fun o => (o.clearReference field).map fun o => ((), o)
  | invalidate field => Resident.change fun o => (o.invalidate field).map fun o => ((), o)
  | flush => Resident.flush
  | isDirty => Resident.look fun o => .ok o.isDirty
  | dirtyFields => Resident.look fun o => .ok o.dirtyFields
  | asReference => Resident.look fun o => o.asReference registry
  | phase field => Resident.look fun o => o.phase field
  | state => Resident.look fun o => .ok o.state

namespace Action

variable {α σ : Type}

def run [Store σ] (registry : Registry) : Action α → Run (Scene σ) ApplicationError α
  | done a, s => (.ok a, s)
  | fail e, s => (.fail e, s)
  | crash, s => (.crash, s)
  | pause rest, s => run registry rest { s with late := true }
  | perform r next, s =>
    match Scene.onObject (r.run registry) s with
    | (.ok a, s) => run registry (next (.ok a)) s
    | (.fail e, s) => run registry (next (.error e)) s
    | (.crash, s) => (.crash, s)

end Action
end ObjectSpace
