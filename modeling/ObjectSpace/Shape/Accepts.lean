import ObjectSpace.Shape.Basic

/-!
# Values that have a shape

`accepts` asks whether a value has a shape as it stands, and `zero?` is the value that a field of
the shape begins with when it declares no default.
-/

namespace ObjectSpace

namespace Value

mutual

/-- Untyped data: null, truth values, numbers, text, lists and records of such. -/
def isPlain : Value → Bool
  | null => true
  | bool _ => true
  | int _ => true
  | str _ => true
  | float x => x.isFinite
  | list items => allPlain items
  | record members => membersPlain members
  | _ => false

def allPlain : List Value → Bool
  | [] => true
  | v :: vs => isPlain v && allPlain vs

def membersPlain : List (String × Value) → Bool
  | [] => true
  | (_, v) :: ms => isPlain v && membersPlain ms

end

end Value

namespace Shape

/-- The first name of a record's members that is not declared. -/
def undeclared? (declared : List (Member Shape)) (members : List (String × α)) : Option String :=
  (members.find? fun (name, _) => !declared.any (·.name == name)).map (·.1)

mutual

def accepts : Shape → Value → Bool
  | int, v => (v matches .int _)
  | bool, v => (v matches .bool _)
  | str, v => (v matches .str _)
  | bytes, v => (v matches .bytes _)
  | instant, v => (v matches .instant _)
  | uuid, v => (v matches .uuid _)
  | float, v =>
    match v with
    | .float x => x.isFinite
    | _ => false
  | optional inner, v => v.isNull || accepts inner v
  | union alternatives, v => anyAccepts alternatives v
  | list element, v =>
    match v with
    | .list items => items.all fun item => accepts element item
    | _ => false
  | set element, v =>
    match v with
    | .set items => items.all fun item => accepts element item
    | _ => false
  | tuple elements, v =>
    match v with
    | .tuple items => eachAccepts elements items
    | _ => false
  | map key value, v =>
    match v with
    | .map entries => entries.all fun (k, v) => accepts key k && accepts value v
    | _ => false
  | record _ declared, v =>
    match v with
    | .record members => (undeclared? declared members).isNone && membersAccept declared members
    | _ => false
  | reference classId, v =>
    match v with
    | .ref id => id.classId == classId
    | _ => false
  | choice _ variants, v =>
    match v with
    | .str s => variants.contains s
    | _ => false
  | any, v => v.isPlain

def anyAccepts : List Shape → Value → Bool
  | [], _ => false
  | s :: ss, v => accepts s v || anyAccepts ss v

/-- As many values as shapes, each of its own. -/
def eachAccepts : List Shape → List Value → Bool
  | [], [] => true
  | s :: ss, v :: vs => accepts s v && eachAccepts ss vs
  | _, _ => false

def membersAccept : List (Member Shape) → List (String × Value) → Bool
  | [], _ => true
  | ⟨name, s, default⟩ :: ds, members =>
    (match Entries.lookup name members with
      | some v => accepts s v
      | none => !(Member.mk name s default).isRequired) && membersAccept ds members

end

mutual

def zero? : Shape → Option Value
  | int => some (.int 0)
  | float => some (.float .zero)
  | bool => some (.bool false)
  | str => some (.str "")
  | bytes => some (.bytes .empty)
  | optional _ => some .null
  | any => some .null
  | union alternatives => firstZero? alternatives
  | list _ => some (.list [])
  | set _ => some (.set [])
  | map _ _ => some (.map [])
  | tuple elements => (allZeros? elements).map .tuple
  | record _ declared => (memberZeros? declared).map .ofMembers
  | choice _ variants => variants.head?.map .str
  | instant => none
  | uuid => none
  | reference _ => none

def firstZero? : List Shape → Option Value
  | [] => none
  | s :: ss =>
    match zero? s with
    | some v => some v
    | none => firstZero? ss

def allZeros? : List Shape → Option (List Value)
  | [] => some []
  | s :: ss => do return (← zero? s) :: (← allZeros? ss)

def memberZeros? : List (Member Shape) → Option (List (String × Value))
  | [] => some []
  | ⟨name, s, default⟩ :: ds => do
    let v ← match default with
      | some v => some v
      | none => zero? s
    return (name, v) :: (← memberZeros? ds)

end

end Shape
end ObjectSpace
