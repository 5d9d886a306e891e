import ObjectSpace.Codec.Error
import ObjectSpace.Identity.Json
import ObjectSpace.Instant.Text
import ObjectSpace.Shape.Accepts

/-!
# Values out of JSON

`Shape.read` takes a document for a value of a shape and coerces nothing. A union takes its first
alternative that can read the document, sets and maps come out in canonical order, and a record
ignores members that are not declared.
-/

namespace ObjectSpace

/-- Whole numbers up to this one have a floating-point number of their own. -/
def maxExactInt : Nat := 2 ^ 53

namespace Shape

def unexpected (s : Shape) (path : String) (j : Json) : Mismatch := .of path s.label j.kind

def notExact (path : String) (n : Int) : Mismatch :=
  (Mismatch.of path "float" (Integer.text n)).withReason
    "integer not exactly representable as float"

def readInt (path : String) : Json → Except Mismatch Value
  | .int n =>
    match int64? n with
    | some n => .ok (.int n)
    | none => .error ((Mismatch.of path "int" (Integer.text n)).withReason "out of i64 range")
  | j => .error (int.unexpected path j)

/-- Whole numbers beyond the signed range are rounded. -/
def readFloat (path : String) : Json → Except Mismatch Value
  | .int n =>
    if n ≤ maxInt64 && maxExactInt < n.natAbs then .error (notExact path n)
    else .ok (.float (.ofInt n))
  | .float x => .ok (.float x)
  | j => .error (float.unexpected path j)

/-- The text of a document that must be a string. -/
def readText (s : Shape) (path : String) : Json → Except Mismatch String
  | .str text => .ok text
  | j => .error (s.unexpected path j)

def bytesOfText (path text : String) : Except Mismatch Value :=
  match Hex.decode text with
  | .ok b => .ok (.bytes b)
  | .error fault =>
    .error ((Mismatch.of path "hex-encoded bytes" (Text.quoted text)).withReason fault.message)

def instantOfText (path text : String) : Except Mismatch Value :=
  match Instant.ofText? text with
  | some t => .ok (.instant t)
  | none => .error (.of path "RFC 3339 datetime" (Text.quoted text))

/-- A text that is no UUID is refused for this reason. -/
def uuidOfText (reason path text : String) : Except Mismatch Value :=
  match Uuid.ofText? text with
  | some u => .ok (.uuid u)
  | none => .error ((Mismatch.of path "uuid" (Text.quoted text)).withReason reason)

def choiceOfText (name : String) (variants : List String) (path text : String) :
    Except Mismatch Value :=
  if variants.contains text then .ok (.str text)
  else .error ((Mismatch.of path (choice name variants).label (Text.quoted text)).withReason
    ("expected one of " ++ ", ".intercalate variants))

/-- An identity can stand in a document at `path`. -/
def writable (path : String) (id : Identity) : Except Mismatch Unit :=
  id.validate.mapError fun m => { m with path := path }

/-- A reference to an object of another class does not fit. -/
def checkClass (classId path : String) (id : Identity) : Except Mismatch Unit :=
  if id.classId = classId then .ok ()
  else .error (.of path (reference classId).label (reference id.classId).label)

def readReference (classId path : String) : Json → Except Mismatch Value
  | .obj members => do
    let id ← (Identity.ofJsonMembers members).mapError fun fault =>
      (Mismatch.of path "object identity" (Json.obj members).text).withReason fault.message
    checkClass classId path id
    writable path id
    return .ref id
  | j => .error ((reference classId).unexpected path j)

/-- Entries in the order of their keys, which must differ. -/
def canonicalEntries (path : String) (entries : List (Value × Value)) : Except Mismatch Value :=
  let byKey (a b : Value × Value) := Value.compare a.1 b.1
  let sorted := Ordered.sort byKey entries
  match Ordered.firstRepeat byKey sorted with
  | some (k, _) => .error (.of (Path.key path k) "unique key" "duplicate key")
  | none => .ok (.map sorted)

/-- What is said when all alternatives have failed. -/
def noAlternative (s : Shape) (path received : String) (failures : List String) : Mismatch :=
  (Mismatch.of path s.label received).withReason
    ("no alternative matched (" ++ "; ".intercalate failures ++ ")")

/-- What stands for a member that is left out, if it may be. -/
def absent (path : String) (m : Member Shape) : Except Mismatch Value :=
  match m.ifAbsent? with
  | some v => .ok v
  | none => .error (.missing path m.shape.label)

mutual

/-- Untyped data as it is written. -/
def plainOfJson : Json → Value
  | .null => .null
  | .bool b => .bool b
  | .int n =>
    match int64? n with
    | some n => .int n
    | none => .float (.ofInt n)
  | .float x => .float x
  | .str s => .str s
  | .arr items => .list (plainItems items)
  | .obj members => .ofMembers (plainMembers members)

def plainItems : List Json → List Value
  | [] => []
  | j :: js => plainOfJson j :: plainItems js

def plainMembers : List (String × Json) → List (String × Value)
  | [] => []
  | (k, j) :: ms => (k, plainOfJson j) :: plainMembers ms

end

mutual

def read (path : String) : Shape → Json → Except Mismatch Value
  | int, j => readInt path j
  | float, j => readFloat path j
  | bool, j =>
    match j with
    | .bool b => .ok (.bool b)
    | _ => .error (bool.unexpected path j)
  | str, j => (readText str path j).map .str
  | bytes, j => readText bytes path j >>= bytesOfText path
  | instant, j => readText instant path j >>= instantOfText path
  | uuid, j => readText uuid path j >>= uuidOfText Uuid.refusal path
  | choice name variants, j =>
    readText (choice name variants) path j >>= choiceOfText name variants path
  | reference classId, j => readReference classId path j
  | any, j => .ok (plainOfJson j)
  | optional inner, j =>
    match j with
    | .null => .ok .null
    | _ => read path inner j
  | union alternatives, j =>
    (readFirst path alternatives j).mapError
      (noAlternative (union alternatives) path j.kind)
  | list element, j =>
    match j with
    | .arr items =>
      (eachAt (fun i item => read (Path.index path i) element item) 0 items).map .list
    | _ => .error ((list element).unexpected path j)
  | set element, j =>
    match j with
    | .arr items =>
      (eachAt (fun i item => read (Path.index path i) element item) 0 items).map .setOf
    | _ => .error ((set element).unexpected path j)
  | tuple elements, j =>
    match j with
    | .arr items =>
      if items.length = elements.length then (readEach path 0 elements items).map .tuple
      else .error (.of path (tuple elements).label (toString items.length ++ "-element array"))
    | _ => .error ((tuple elements).unexpected path j)
  | map key value, j => do
    let entries ← match j with
      | .obj members =>
        if key.isTextual then
          members.mapM fun (k, v) => do
            let k ← read path key (.str k)
            return (k, ← read (Path.key path k) value v)
        else .error ((map key value).unexpected path j)
      | .arr pairs =>
        eachAt (fun i pair =>
          match pair with
          | .arr [k, v] => do
            let k ← read (Path.index path i) key k
            return (k, ← read (Path.key path k) value v)
          | _ => .error (.of (Path.index path i) "[key, value] pair" pair.kind)) 0 pairs
      | _ => .error ((map key value).unexpected path j)
    canonicalEntries path entries
  | record name declared, j =>
    match j with
    | .obj members => (readMembers path declared members).map .ofMembers
    | _ => .error ((record name declared).unexpected path j)

/-- The value under the first alternative that can read the document, or how each failed. -/
def readFirst (path : String) : List Shape → Json → Except (List String) Value
  | [], _ => .error []
  | s :: ss, j =>
    match read path s j with
    | .ok v => .ok v
    | .error m => (readFirst path ss j).mapError ((s.label ++ ": " ++ m.received) :: ·)

/-- One document for each shape, the first at position `i`. -/
def readEach (path : String) (i : Nat) : List Shape → List Json → Except Mismatch (List Value)
  | s :: ss, j :: js => do
    let v ← read (Path.index path i) s j
    return v :: (← readEach path (i + 1) ss js)
  | _, _ => .ok []

def readMembers (path : String) : List (Member Shape) → List (String × Json) →
    Except Mismatch (List (String × Value))
  | [], _ => .ok []
  | ⟨name, s, default⟩ :: ds, members => do
    let v ← match Entries.lookup name members with
      | some j => read (Path.field path name) s j
      | none => absent (Path.field path name) ⟨name, s, default⟩
    return (name, v) :: (← readMembers path ds members)

end

end Shape
end ObjectSpace
