import ObjectSpace.Class.Basic
import ObjectSpace.Identity.OfValue

/-!
# What can name an object

An object is named by itself, by a proxy, by its identity or the parts of it, or by a value that
an identity can be taken from. All are normalized to a valid identity.
-/

namespace ObjectSpace

/-- An object known by its identity and its class. -/
structure Proxy where
  identity : Identity
  schema : Class

def Proxy.debugText (p : Proxy) : String := "ReferenceProxy(" ++ p.identity.text ++ ")"

inductive Target where
  | live (id : Identity)
  | proxy (p : Proxy)
  | record (id : Identity)
  | parts (classId : String) (partition : UInt32) (object : UInt64)
  | value (v : Value)

namespace Target

def identity : Target → Except Mismatch Identity
  | live id => .ok id
  | proxy p => .ok p.identity
  | record id => .ok id
  | parts classId partition object => .ok ⟨classId, partition, object⟩
  | value v => Identity.ofValue v

def normalize (t : Target) : Except Mismatch Identity := do
  let id ← t.identity
  id.validate
  return id

/-- The identity that is stored for the target. Objects and proxies are known to be valid where they
were made, and are not asked again. -/
def reference : Target → Except Mismatch Identity
  | live id => .ok id
  | proxy p => .ok p.identity
  | t => t.normalize

/-- An identity of another class is not a reference to an object of this one. -/
def otherClass (classId : String) (id : Identity) : Mismatch :=
  .of "identity" (Shape.reference classId).label (Shape.reference id.classId).label

def normalizeFor (t : Target) (classId : String) : Except Mismatch Identity := do
  let id ← t.normalize
  if id.classId = classId then return id else .error (otherClass classId id)

end Target
end ObjectSpace
