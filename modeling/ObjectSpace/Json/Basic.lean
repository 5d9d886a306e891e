import ObjectSpace.Binary64.Text
import ObjectSpace.Table

/-!
# JSON documents

An object is the list of its members as they are written; `Json.object` puts them in key order.
Whole numbers that fit 64 bits, with or without sign, are held exactly.
-/

namespace ObjectSpace

inductive Json where
  | null
  | bool (b : Bool)
  | int (n : Int)
  | float (x : Binary64)
  | str (s : String)
  | arr (items : List Json)
  | obj (members : List (String × Json))
  deriving Inhabited

namespace Json

/-- The members in key order; of several with one key the last one. -/
def object (members : List (String × Json)) : Json := .obj (Entries.ofList members)

/-- Any value that a type of whole numbers of 64 bits has. -/
def isInt (n : Int) : Bool := minInt64 ≤ n && n < 2 ^ 64

def kind : Json → String
  | null => "null"
  | bool _ => "bool"
  | int _ => "int"
  | float _ => "float"
  | str _ => "str"
  | arr _ => "array"
  | obj _ => "object"

/-- Exponents from `1e-5` to below `1e16` are written positionally, and whole numbers keep a zero
fraction. -/
def numberLayout : Binary64.Layout := ⟨some (-5, 16), ".0", .even⟩

end Json
end ObjectSpace
