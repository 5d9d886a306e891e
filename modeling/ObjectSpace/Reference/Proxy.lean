import ObjectSpace.Codec.Call
import ObjectSpace.Message
import ObjectSpace.Native
import ObjectSpace.Reference.Error
import ObjectSpace.Reference.Target

/-!
# Calls and accesses from afar

A proxy encodes a call by the signature of the method, sends it through a transport and decodes the
reply. Accessors go to the store directly, one slot at a time, and never through a call.
-/

namespace ObjectSpace

/-- What comes of an envelope that was sent. -/
inductive Delivery where
  | reply (r : Reply)
  | silence

abbrev Transport (σ : Type) : Type := Identity → Envelope → Run σ TransportError Delivery

namespace Transport

/-- Carries nothing. -/
def none : Transport σ := fun id _ => .fail (.unconfigured id)

end Transport

/-- How calls travel, and how long they may take where a method does not say. -/
structure Connection (σ : Type) where
  transport : Transport σ
  callTimeout : Nat

namespace Registry

/-- The proxy of an object that must be of the class. -/
def materialize (r : Registry) (id : Identity) (classId : String) : Except ProxyError Proxy :=
  if id.classId = classId then
    ((r.find classId).mapError .schema).map fun c => ⟨id, c⟩
  else .error (.mismatch (Target.otherClass classId id))

def proxy (r : Registry) (t : Target) : Except ProxyError Proxy := do
  let id ← t.normalize.mapError .mismatch
  r.materialize id id.classId

end Registry

namespace Proxy

variable {σ : Type}

def methodNames (p : Proxy) : List String := p.schema.methods.keys

def signature (p : Proxy) (method : String) : Except ProxyError Method :=
  match p.schema.method? method with
  | some m => .ok m
  | none => .error (.unknownMember p.identity.classId method)

/-- Sends an envelope as it is; the payload of the reply. -/
def invokeRaw (c : Connection σ) (p : Proxy) (e : Envelope) : Run σ ProxyError ByteArray := do
  let ms := ((p.schema.method? e.method).bind Method.timeout).getD c.callTimeout
  match ← (c.transport p.identity e).mapError .transport with
  | .silence => .fail (.timeout e.method ms)
  | .reply r =>
    match r.report? with
    | some report => .fail (.remote report)
    | none => pure r.payload

def send (c : Connection σ) (p : Proxy) (m : Method) (e : Envelope) : Run σ ProxyError Value := do
  let payload ← p.invokeRaw c e
  .ofExcept ((m.returns.decode "return" payload).mapError .codec)

/-- Calls a method with one argument value and options that the method may look at. -/
def call (c : Connection σ) (p : Proxy) (method : String) (arg : Value)
    (options : Table String String) : Run σ ProxyError Value := do
  let m ← .ofExcept (p.signature method)
  let payload ← .ofExcept ((m.encodeCall arg).mapError .codec)
  p.send c m ⟨method, payload, options⟩

/-- Calls a method and takes the result as a native value. -/
def callAs (c : Connection σ) (p : Proxy) (native : Native) (method : String) (arg : Value) :
    Run σ ProxyError native.Carrier := do
  let v ← p.call c method arg {}
  .ofExcept ((native.ofValue v).mapError .mismatch)

/-- What is said of arguments that only a variadic method could take. -/
def notVariadic (method : String) (positional named : Nat) : Mismatch :=
  .of method "at most one positional argument"
    (toString positional ++ " positional, " ++ toString named ++ " named")

/-- Calls a method with arguments by position and by name. -/
def callWith (c : Connection σ) (p : Proxy) (method : String) (positional : List Value)
    (named : Table String Value) : Run σ ProxyError Value := do
  let m ← .ofExcept (p.signature method)
  if m.shape = .variadic then
    let payload ← .ofExcept ((Arguments.encode m.params positional named).mapError .codec)
    p.send c m ⟨method, payload, {}⟩
  else if named.isEmpty && positional.length ≤ 1 then
    p.call c method (positional.head?.getD .null) {}
  else .fail (.mismatch (notVariadic method positional.length named.size))

/-- Why a caller cannot wait where it is all that runs. -/
def cannotWait : String := "CurrentThread runtime cannot block in place"

/-- Calls from where the caller may wait, unless there is an obstacle. -/
def callBlocking (c : Connection σ) (obstacle : Option String) (p : Proxy) (method : String)
    (arg : Value) : Run σ ProxyError Value :=
  match obstacle with
  | none => p.call c method arg {}
  | some reason => .fail (.cannotBlock reason)

/-! ## Accessors -/

/-- The field behind an accessor with this access. -/
def accessed (p : Proxy) (accessor : String) (access : Access) : Except ProxyError Field :=
  match p.schema.accessor? accessor with
  | none => .error (.unknownMember p.identity.classId accessor)
  | some a =>
    if a.access = access then
      match p.schema.field? a.field with
      | some f => .ok f
      | none => .error (.unknownMember p.identity.classId a.field)
    else .error (.wrongAccess accessor access)

/-- The value of a slot, which is the field's default where the slot is empty. -/
def slotValue (f : Field) : Option ByteArray → Except CodecError Value
  | some payload => f.shape.decode f.name payload
  | none => .ok f.default

def read [Store σ] (p : Proxy) (accessor : String) : Run σ ProxyError Value := do
  let f ← .ofExcept (p.accessed accessor .read)
  let slot ← (Store.get p.identity f.index).mapError .store
  .ofExcept ((slotValue f slot).mapError .codec)

/-- Writes the slot of one field; the value as it was stored. -/
def write [Store σ] (p : Proxy) (accessor : String) (v : Value) : Run σ ProxyError Value := do
  let f ← .ofExcept (p.accessed accessor .write)
  let v ← .ofExcept ((f.shape.coerce f.name v).mapError .mismatch)
  let payload ← .ofExcept ((f.shape.encode f.name v).mapError .codec)
  (Store.put p.identity (Table.empty.insert f.index payload)).mapError .store
  return v

end Proxy
end ObjectSpace
