import ObjectSpace.Message
import ObjectSpace.Service.Action

/-!
# Operations

An operation is a declared method with its body. Invoking it decodes the arguments by the
declaration, runs the body on the object, and coerces and encodes the result.
-/

namespace ObjectSpace

/-- The arguments of a call, by the names of the parameters. -/
structure Arguments where
  names : List String
  values : List Value

namespace Arguments

def at? (a : Arguments) (i : Nat) : Option Value := a.values[i]?

def get? (a : Arguments) (name : String) : Option Value :=
  (a.names.findIdx? (· == name)).bind a.at?

/-- Each name with its value. -/
def entries (a : Arguments) : List (String × Value) := a.names.zip a.values

/-- The argument as a native value; an argument that is not there is null. -/
def getAs (a : Arguments) (n : Native) (name : String) : Except Mismatch n.Carrier :=
  (n.ofValue ((a.get? name).getD .null)).mapError (·.within name)

end Arguments

/-- What a body may know of the call beyond its arguments. -/
structure CallMeta where
  target : Identity
  method : String
  options : Table String String

abbrev Body : Type := Arguments → CallMeta → Action Value

structure Operation where
  method : Method
  body : Body

namespace Operation

variable {σ : Type}

/-- A body that takes its only argument as a native value. -/
def single (n : Native) (body : n.Carrier → CallMeta → Action Value) : Body := fun args callMeta => do
  let x ← Action.ofExcept (n.ofValue ((args.at? 0).getD .null))
  body x callMeta

def decodeArguments (op : Operation) (payload : ByteArray) : Except InvokeError Arguments :=
  ((op.method.decodeCall payload).mapError .codec).map fun vs =>
    ⟨op.method.params.map Member.name, vs⟩

def encodeResult (op : Operation) (v : Value) : Except InvokeError ByteArray :=
  (op.method.returns.encodeLoose "return" v).mapError (.invalidReturn op.method.name)

def tryInvoke [Store σ] (registry : Registry) (op : Operation) (e : Envelope) :
    Run (Scene σ) InvokeError ByteArray := do
  let args ← .ofExcept (op.decodeArguments e.payload)
  let s ← Run.getState
  let callMeta : CallMeta := ⟨s.object.identity, e.method, e.options⟩
  let v ← ((op.body args callMeta).run registry).mapError .application
  .ofExcept (op.encodeResult v)

/-- The reply to a call; a failure becomes its report. -/
def invoke [Store σ] (registry : Registry) (op : Operation) (e : Envelope) :
    Run (Scene σ) Empty Reply := do
  match ← (op.tryInvoke registry e).attempt with
  | .ok payload => pure (.ok payload)
  | .fail err => pure (.failure (Reported.report err))
  | .crash => Run.crash

end Operation
end ObjectSpace
