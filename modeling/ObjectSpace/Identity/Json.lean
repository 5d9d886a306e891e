import ObjectSpace.Identity.OfValue
import ObjectSpace.Json.Printer
import ObjectSpace.Text.Quoted

/-!
# Identities as JSON

An identity is written as an object of its three parts. Reading visits the members in key order,
passes over those it does not know, and then asks for what is missing.
-/

namespace ObjectSpace

namespace Json

/-- What a member may be wanted to be. -/
inductive Wanted where
  | text
  | word32
  | word64
  deriving DecidableEq

def Wanted.name : Wanted → String
  | text => "a string"
  | word32 => "u32"
  | word64 => "u64"

/-- How a document is called that is not what it should be. Numbers are shown as they are printed. -/
def described : Json → String
  | null => "null"
  | bool b => "boolean `" ++ toString b ++ "`"
  | int n => "integer `" ++ Integer.text n ++ "`"
  | float x => "floating point `" ++ x.text numberLayout ++ "`"
  | str s => "string " ++ Text.quoted s
  | arr _ => "sequence"
  | obj _ => "map"

end Json

namespace Identity

inductive ReadFault where
  | wrongType (found : Json) (wanted : Json.Wanted)
  | wrongValue (found : Json) (wanted : Json.Wanted)
  | missing (key : String)

def ReadFault.message : ReadFault → String
  | wrongType found wanted =>
    "invalid type: " ++ found.described ++ ", expected " ++ wanted.name
  | wrongValue found wanted =>
    "invalid value: " ++ found.described ++ ", expected " ++ wanted.name
  | missing key => "missing field `" ++ key ++ "`"

def readText : Json → Except ReadFault String
  | .str s => .ok s
  | j => .error (.wrongType j .text)

def readWord32 : Json → Except ReadFault UInt32
  | .int n =>
    match uint32? n with
    | some w => .ok w
    | none => .error (.wrongValue (.int n) .word32)
  | j => .error (.wrongType j .word32)

def readWord64 : Json → Except ReadFault UInt64
  | .int n =>
    match uint64? n with
    | some w => .ok w
    | none => .error (.wrongValue (.int n) .word64)
  | j => .error (.wrongType j .word64)

/-- Reads the member with this key if there is one. -/
def readMember? (members : List (String × Json)) (key : String)
    (read : Json → Except ReadFault α) : Except ReadFault (Option α) :=
  match Entries.lookup key members with
  | some j => (read j).map some
  | none => .ok none

def required (key : String) : Option α → Except ReadFault α
  | some a => .ok a
  | none => .error (.missing key)

def ofJsonMembers (members : List (String × Json)) : Except ReadFault Identity := do
  let classId ← readMember? members classKey readText
  let object ← readMember? members objectKey readWord64
  let partition ← readMember? members partitionKey readWord32
  return ⟨← required classKey classId, ← required partitionKey partition,
    ← required objectKey object⟩

/-- The parts in their own order. -/
def jsonMembers (id : Identity) : List (String × Json) :=
  [(classKey, .str id.classId), (partitionKey, .int id.partition.toNat),
    (objectKey, .int id.object.toNat)]

def json (id : Identity) : Json := .object id.jsonMembers

end Identity
end ObjectSpace
