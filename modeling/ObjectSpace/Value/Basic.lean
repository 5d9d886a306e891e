import ObjectSpace.Binary64.Basic
import ObjectSpace.Identity.Basic
import ObjectSpace.Instant.Basic
import ObjectSpace.Table
import ObjectSpace.Uuid

/-!
# Values

What an argument, a result or a field of an object can be. A record holds its members in the order
of their names.
-/

namespace ObjectSpace

inductive Value where
  | null
  | bool (b : Bool)
  | int (n : Int64)
  | float (x : Binary64)
  | str (s : String)
  | bytes (b : ByteArray)
  | list (items : List Value)
  | set (items : List Value)
  | tuple (items : List Value)
  | map (entries : List (Value × Value))
  | record (members : List (String × Value))
  | instant (t : Instant)
  | uuid (u : Uuid)
  | ref (id : Identity)
  deriving Inhabited

namespace Value

def kind : Value → String
  | null => "null"
  | bool _ => "bool"
  | int _ => "int"
  | float _ => "float"
  | str _ => "str"
  | bytes _ => "bytes"
  | list _ => "list"
  | set _ => "set"
  | tuple _ => "tuple"
  | map _ => "map"
  | record _ => "struct"
  | instant _ => "datetime"
  | uuid _ => "uuid"
  | ref _ => "ref"

def isNull : Value → Bool
  | null => true
  | _ => false

/-- The member of a record with this name. -/
def member? (name : String) : Value → Option Value
  | record members => Entries.lookup name members
  | _ => none

def ofMembers (members : List (String × Value)) : Value := record (Entries.ofList members)

end Value
end ObjectSpace
