import ObjectSpace.Identity.OfValue
import ObjectSpace.Value.Path

/-!
# Native types

The types in which method bodies and typed fields take values. A native type is told by its code;
`Carrier` is the type of its values. Reading a value checks the kind and the range and coerces
nothing.
-/

namespace ObjectSpace

/-- Types of whole numbers that fit 64 bits with sign. -/
inductive Width where
  | i8
  | i16
  | i32
  | i64
  | u8
  | u16
  | u32
  deriving DecidableEq

namespace Width

def name : Width → String
  | i8 => "i8"
  | i16 => "i16"
  | i32 => "i32"
  | i64 => "i64"
  | u8 => "u8"
  | u16 => "u16"
  | u32 => "u32"

def low : Width → Int
  | i8 => -2 ^ 7
  | i16 => -2 ^ 15
  | i32 => -2 ^ 31
  | i64 => -2 ^ 63
  | u8 | u16 | u32 => 0

/-- The first number above the range. -/
def high : Width → Int
  | i8 => 2 ^ 7
  | i16 => 2 ^ 15
  | i32 => 2 ^ 31
  | i64 => 2 ^ 63
  | u8 => 2 ^ 8
  | u16 => 2 ^ 16
  | u32 => 2 ^ 32

def Holds (w : Width) (n : Int64) : Prop := w.low ≤ n.toInt ∧ n.toInt < w.high

instance (w : Width) (n : Int64) : Decidable (w.Holds n) := inferInstanceAs (Decidable (_ ∧ _))

end Width

inductive Native where
  | unit
  | bool
  | int (w : Width)
  | float
  | str
  | bytes
  | instant
  | uuid
  | identity
  | value
  | optional (inner : Native)
  | list (element : Native)
  | map (element : Native)
  deriving DecidableEq, Inhabited

namespace Native

abbrev Carrier : Native → Type
  | unit => Unit
  | bool => Bool
  | int w => { n : Int64 // w.Holds n }
  | float => Binary64
  | str => String
  | bytes => ByteArray
  | instant => Instant
  | uuid => Uuid
  | identity => Identity
  | value => Value
  | optional inner => Option (Carrier inner)
  | list element => List (Carrier element)
  | map element => Table String (Carrier element)

def toValue : (n : Native) → n.Carrier → Value
  | unit, () => .null
  | bool, b => .bool b
  | int _, n => .int n.val
  | float, x => .float x
  | str, s => .str s
  | bytes, b => .bytes b
  | instant, t => .instant t
  | uuid, u => .uuid u
  | identity, id => .ref id
  | value, v => v
  | optional inner, x =>
    match x with
    | none => .null
    | some x => toValue inner x
  | list element, xs => .list (xs.map (toValue element))
  | map element, t => .map (t.entries.map fun (k, x) => (.str k, toValue element x))

/-- A mismatch at the value itself. -/
def wrongKind (expected : String) (v : Value) : Mismatch := .of "" expected v.kind

def outOfRange (expected : String) (n : Int64) : Mismatch :=
  (Mismatch.of "" expected (Integer.text n.toInt)).withReason "out of range"

/-- The mismatch of a part that is found under `step`. -/
def under (step : String) (m : Mismatch) : Mismatch := { m with path := step ++ m.path }

def intOf (w : Width) : Value → Except Mismatch { n : Int64 // w.Holds n }
  | .int n => if h : w.Holds n then .ok ⟨n, h⟩ else .error (outOfRange w.name n)
  | v => .error (wrongKind "int" v)

/-- Numbers without sign have 64 bits, but no value stands for those beyond the signed range. -/
def word64Of : Value → Except Mismatch UInt64
  | .int n =>
    match uint64? n.toInt with
    | some w => .ok w
    | none => .error (outOfRange "u64" n)
  | v => .error (wrongKind "int" v)

/-- The entries of a map or record, all of whose keys must be names. -/
def entriesOf : Value → Except Mismatch (List (Value × Value))
  | .map entries => .ok entries
  | .record members => .ok (members.map fun (name, v) => (.str name, v))
  | v => .error (wrongKind "map" v)

def ofValue : (n : Native) → Value → Except Mismatch n.Carrier
  | unit, v =>
    match v with
    | .null => .ok ()
    | _ => .error (wrongKind "null" v)
  | bool, v =>
    match v with
    | .bool b => .ok b
    | _ => .error (wrongKind "bool" v)
  | int w, v => intOf w v
  | float, v =>
    match v with
    | .float x => .ok x
    | _ => .error (wrongKind "float" v)
  | str, v =>
    match v with
    | .str s => .ok s
    | _ => .error (wrongKind "str" v)
  | bytes, v =>
    match v with
    | .bytes b => .ok b
    | _ => .error (wrongKind "bytes" v)
  | instant, v =>
    match v with
    | .instant t => .ok t
    | _ => .error (wrongKind "datetime" v)
  | uuid, v =>
    match v with
    | .uuid u => .ok u
    | _ => .error (wrongKind "uuid" v)
  | identity, v => Identity.ofValue v
  | value, v => .ok v
  | optional inner, v =>
    match v with
    | .null => .ok none
    | _ => (ofValue inner v).map some
  | list element, v =>
    match v with
    | .list items | .set items | .tuple items =>
      eachAt (fun i item => (ofValue element item).mapError (under (Path.index "" i))) 0 items
    | _ => .error (wrongKind "list" v)
  | map element, v => do
    let entries ← entriesOf v
    let entries ← entries.mapM fun (k, v) =>
      match k with
      | .str name => do
        let x ← (ofValue element v).mapError (under (Path.key "" k))
        return (name, x)
      | _ => .error (wrongKind "str key" k)
    return Table.ofList entries

/-! ## Names -/

def plain : List (String × Native) :=
  [("unit", unit), ("bool", bool), ("f64", float), ("string", str), ("bytes", bytes),
    ("datetime", instant), ("uuid", uuid), ("identity", identity), ("value", value)] ++
  [Width.i8, .i16, .i32, .i64, .u8, .u16, .u32].map fun w => (w.name, int w)

/-- The type with this name: a plain type, with a word in front for every type built on it. -/
def ofWords? : List String → Option Native
  | "opt" :: ws => (ofWords? ws).map optional
  | "vec" :: ws => (ofWords? ws).map list
  | "map" :: ws => (ofWords? ws).map map
  | [w] => plain.lookup w
  | _ => none

/-! ## Reading and writing -/

/-- Reads a value as a native one and gives it back as a value. -/
def normalize (n : Native) (v : Value) : Except Mismatch Value := (n.ofValue v).map n.toValue

end Native
end ObjectSpace
