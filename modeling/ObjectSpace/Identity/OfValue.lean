import ObjectSpace.Mismatch
import ObjectSpace.Value.Order

/-!
# Identities out of values

An identity is a value of its own; it is also written as a record of its three parts, and given as
three items in order. A valid identity has a class and a number that can be written.
-/

namespace ObjectSpace
namespace Identity

def classKey : String := "class_id"
def partitionKey : String := "partition_id"
def objectKey : String := "object_id"

/-- The number as it is written. -/
def writtenObject (id : Identity) : Except Mismatch Int64 :=
  match int64? id.object.toNat with
  | some n => .ok n
  | none => .error (.of "identity.object_id" "object id in i64 range" (toString id.object.toNat))

def validate (id : Identity) : Except Mismatch Unit :=
  if id.classId.isEmpty then
    .error (.of "identity.class_id" "non-empty class id" "empty string")
  else id.writtenObject.map fun _ => ()

/-! The parts of an identity, each found at a path. -/

def classOf (path : String) : Value → Except Mismatch String
  | .str s => if s.isEmpty then .error (.of path "non-empty class id" "empty string") else .ok s
  | v => .error (.of path "str" v.kind)

def partitionOf (path : String) : Value → Except Mismatch UInt32
  | .int n =>
    match uint32? n.toInt with
    | some p => .ok p
    | none => .error (.of path "partition id in u32 range" (toString n.toInt))
  | v => .error (.of path "int" v.kind)

def objectOf (path : String) : Value → Except Mismatch UInt64
  | .int n =>
    match uint64? n.toInt with
    | some o => .ok o
    | none => .error (.of path "non-negative object id" (toString n.toInt))
  | v => .error (.of path "int" v.kind)

def memberOf (members : List (String × Value)) (key : String) : Except Mismatch Value :=
  match Entries.lookup key members with
  | some v => .ok v
  | none => .error (.of ("identity." ++ key) "present" "missing")

/-- Members with other names do not matter. -/
def ofMembers (members : List (String × Value)) : Except Mismatch Identity := do
  let classId ← memberOf members classKey >>= classOf "identity.class_id"
  let partition ← memberOf members partitionKey >>= partitionOf "identity.partition_id"
  let object ← memberOf members objectKey >>= objectOf "identity.object_id"
  return ⟨classId, partition, object⟩

def ofItems (kind : String) : List Value → Except Mismatch Identity
  | [classId, partition, object] => do
    let classId ← classOf "identity[0]" classId
    let partition ← partitionOf "identity[1]" partition
    let object ← objectOf "identity[2]" object
    return ⟨classId, partition, object⟩
  | items =>
    .error (.of "identity" "3-element identity tuple"
      (toString items.length ++ "-element " ++ kind))

/-- A map whose keys are names, as the members of a record. -/
def namedEntry : Value × Value → Except Mismatch (String × Value)
  | (.str name, v) => .ok (name, v)
  | (k, _) => .error (.of "identity" "string key" k.kind)

def ofValue : Value → Except Mismatch Identity
  | .ref id => .ok id
  | .record members => ofMembers members
  | .map entries => do ofMembers (Entries.ofList (← entries.mapM namedEntry))
  | .list items => ofItems "list" items
  | .tuple items => ofItems "tuple" items
  | v => .error (.of "identity" "object identity" v.kind)

/-- The record of the parts. -/
def toRecord (id : Identity) : Except Mismatch Value := do
  let object ← id.writtenObject
  return .ofMembers
    [(classKey, .str id.classId), (partitionKey, .int (Int64.ofNat id.partition.toNat)),
      (objectKey, .int object)]

end Identity
end ObjectSpace
