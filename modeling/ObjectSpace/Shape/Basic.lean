import ObjectSpace.Value.Order

/-!
# Shapes

A shape is the declared type of a field, a parameter or a result. Optional values, unions and
untyped data may be null. A member of a record, and a parameter of a method, is a shape with a name
and perhaps a default.
-/

namespace ObjectSpace

structure Member (α : Type) where
  name : String
  shape : α
  default : Option Value
  deriving Inhabited

inductive Shape where
  | int
  | float
  | bool
  | str
  | bytes
  | instant
  | uuid
  | optional (inner : Shape)
  | union (alternatives : List Shape)
  | list (element : Shape)
  | set (element : Shape)
  | map (key value : Shape)
  | tuple (elements : List Shape)
  | record (name : String) (members : List (Member Shape))
  | reference (classId : String)
  | choice (name : String) (variants : List String)
  | any
  deriving Inhabited

/-- A declared parameter of a method. -/
abbrev Param := Member Shape

namespace Shape

mutual

/-- How error texts call the shape. -/
def label : Shape → String
  | int => "int"
  | float => "float"
  | bool => "bool"
  | str => "str"
  | bytes => "bytes"
  | instant => "datetime"
  | uuid => "uuid"
  | optional inner => "Optional[" ++ label inner ++ "]"
  | union alternatives => "Union[" ++ ", ".intercalate (labels alternatives) ++ "]"
  | list element => "List[" ++ label element ++ "]"
  | set element => "Set[" ++ label element ++ "]"
  | map key value => "Map[" ++ label key ++ ", " ++ label value ++ "]"
  | tuple elements => "Tuple[" ++ ", ".intercalate (labels elements) ++ "]"
  | record name _ => name
  | reference classId => "Ref[" ++ classId ++ "]"
  | choice name _ => "Enum[" ++ name ++ "]"
  | any => "any"

def labels : List Shape → List String
  | [] => []
  | s :: ss => label s :: labels ss

end

mutual

/-- Whether null is a value of the shape. -/
def isNullable : Shape → Bool
  | optional _ => true
  | any => true
  | union alternatives => anyNullable alternatives
  | _ => false

def anyNullable : List Shape → Bool
  | [] => false
  | s :: ss => isNullable s || anyNullable ss

end

mutual

/-- Whether values of the shape can hold references. -/
def holdsReferences : Shape → Bool
  | reference _ => true
  | optional inner => holdsReferences inner
  | list element => holdsReferences element
  | set element => holdsReferences element
  | map key value => holdsReferences key || holdsReferences value
  | union alternatives => anyHoldsReferences alternatives
  | tuple elements => anyHoldsReferences elements
  | record _ members => membersHoldReferences members
  | _ => false

def anyHoldsReferences : List Shape → Bool
  | [] => false
  | s :: ss => holdsReferences s || anyHoldsReferences ss

def membersHoldReferences : List (Member Shape) → Bool
  | [] => false
  | ⟨_, s, _⟩ :: ms => holdsReferences s || membersHoldReferences ms

end

/-- The class of a reference that may be optional. -/
def referencedClass? : Shape → Option String
  | reference classId => some classId
  | optional inner => referencedClass? inner
  | _ => none

/-- Shapes whose values are all written as JSON strings. -/
def isTextual : Shape → Bool
  | str | bytes | instant | uuid | choice _ _ => true
  | _ => false

end Shape

namespace Member

/-- What stands for a member that is left out. -/
def ifAbsent? (m : Member Shape) : Option Value :=
  match m.default with
  | some v => some v
  | none => if m.shape.isNullable then some .null else none

/-- Whether the member must not be left out. -/
def isRequired (m : Member Shape) : Bool := m.ifAbsent?.isNone

end Member
end ObjectSpace
