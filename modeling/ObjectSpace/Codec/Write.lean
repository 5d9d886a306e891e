import ObjectSpace.Codec.Read

/-!
# Values as JSON

`Shape.write` takes a value that has a shape to a document. A union writes under the first
alternative that accepts the value and whose document reads back as this value, so that no document
is taken for something else.
-/

namespace ObjectSpace

namespace Shape

def refused (s : Shape) (path : String) (v : Value) : Mismatch := .of path s.label v.kind

def writeFloat (path : String) (x : Binary64) : Except CodecError Json :=
  if x.isFinite then .ok (.float x) else .error (.notFinite path x)

def writeReference (classId path : String) (id : Identity) : Except CodecError Json := do
  (checkClass classId path id).mapError .mismatch
  (writable path id).mapError .mismatch
  return id.json

/-- A member that the record does not declare. -/
def noSuchField (s : Shape) (path name : String) : Mismatch :=
  (Mismatch.of (Path.field path name) "no such field" "value").withReason
    (s.label ++ " has no field " ++ name)

mutual

/-- Untyped data; sequences of all kinds are arrays, and records and maps are objects. -/
def writePlain (path : String) : Value → Except CodecError Json
  | .null => .ok .null
  | .bool b => .ok (.bool b)
  | .int n => .ok (.int n.toInt)
  | .float x => writeFloat path x
  | .str s => .ok (.str s)
  | .list items => (plainArray path 0 items).map .arr
  | .set items => (plainArray path 0 items).map .arr
  | .tuple items => (plainArray path 0 items).map .arr
  | .record members => (plainObject path members).map .object
  | .map entries => (plainEntries path entries).map .object
  | v => .error (.mismatch (any.refused path v))

def plainArray (path : String) (i : Nat) : List Value → Except CodecError (List Json)
  | [] => .ok []
  | v :: vs => do
    let j ← writePlain (Path.index path i) v
    return j :: (← plainArray path (i + 1) vs)

def plainObject (path : String) :
    List (String × Value) → Except CodecError (List (String × Json))
  | [] => .ok []
  | (name, v) :: ms => do
    let j ← writePlain (Path.field path name) v
    return (name, j) :: (← plainObject path ms)

def plainEntries (path : String) :
    List (Value × Value) → Except CodecError (List (String × Json))
  | [] => .ok []
  | (k, v) :: es =>
    match k with
    | .str name => do
      let j ← writePlain (Path.field path name) v
      return (name, j) :: (← plainEntries path es)
    | _ => .error (.mismatch (.of (Path.key path k) "str key" k.kind))

end

/-- The text of a document that is a key. -/
def keyText (path : String) (key : Shape) (k : Value) : Json → Except CodecError String
  | .str text => .ok text
  | _ => .error (.mismatch (key.refused path k))

mutual

def write (path : String) : Shape → Value → Except CodecError Json
  | int, v =>
    match v with
    | .int n => .ok (.int n.toInt)
    | _ => .error (.mismatch (int.refused path v))
  | float, v =>
    match v with
    | .float x => writeFloat path x
    | _ => .error (.mismatch (float.refused path v))
  | bool, v =>
    match v with
    | .bool b => .ok (.bool b)
    | _ => .error (.mismatch (bool.refused path v))
  | str, v =>
    match v with
    | .str s => .ok (.str s)
    | _ => .error (.mismatch (str.refused path v))
  | bytes, v =>
    match v with
    | .bytes b => .ok (.str (Hex.encode b))
    | _ => .error (.mismatch (bytes.refused path v))
  | instant, v =>
    match v with
    | .instant t => .ok (.str t.text)
    | _ => .error (.mismatch (instant.refused path v))
  | uuid, v =>
    match v with
    | .uuid u => .ok (.str u.text)
    | _ => .error (.mismatch (uuid.refused path v))
  | choice name variants, v =>
    match v with
    | .str s =>
      if variants.contains s then .ok (.str s)
      else .error (.mismatch ((choice name variants).refused path v))
    | _ => .error (.mismatch ((choice name variants).refused path v))
  | reference classId, v =>
    match v with
    | .ref id => writeReference classId path id
    | _ => .error (.mismatch ((reference classId).refused path v))
  | any, v => writePlain path v
  | optional inner, v =>
    match v with
    | .null => .ok .null
    | _ => write path inner v
  | union alternatives, v =>
    if anyAccepts alternatives v then do
      match ← writeFirst path alternatives alternatives v with
      | some j => return j
      | none =>
        .error (.mismatch (((union alternatives).refused path v).withReason
          "no alternative encodes this value unambiguously"))
    else .error (.mismatch ((union alternatives).refused path v))
  | list element, v =>
    match v with
    | .list items =>
      (eachAt (fun i item => write (Path.index path i) element item) 0 items).map .arr
    | _ => .error (.mismatch ((list element).refused path v))
  | set element, v =>
    match v with
    | .set items =>
      (eachAt (fun i item => write (Path.index path i) element item) 0
        (Value.canonicalItems items)).map .arr
    | _ => .error (.mismatch ((set element).refused path v))
  | tuple elements, v =>
    match v with
    | .tuple items =>
      if items.length = elements.length then (writeEach path 0 elements items).map .arr
      else .error (.mismatch
        (.of path (tuple elements).label (toString items.length ++ "-tuple")))
    | _ => .error (.mismatch ((tuple elements).refused path v))
  | map key value, v =>
    match v with
    | .map entries =>
      if key.isTextual then do
        let members ← entries.mapM fun (k, v) => do
          let text ← write path key k >>= keyText path key k
          return (text, ← write (Path.key path k) value v)
        return .object members
      else do
        let pairs ← eachAt (fun i (k, v) => do
          let key ← write (Path.index path i) key k
          return .arr [key, ← write (Path.key path k) value v]) 0 entries
        return .arr pairs
    | _ => .error (.mismatch ((map key value).refused path v))
  | record name declared, v =>
    match v with
    | .record members =>
      match undeclared? declared members with
      | some unknown => .error (.mismatch (noSuchField (record name declared) path unknown))
      | none => (writeMembers path declared members).map .object
    | _ => .error (.mismatch ((record name declared).refused path v))

/-- The document of the first of some alternatives of the union of `all` that accepts the value and
reads back as it. -/
def writeFirst (path : String) (all : List Shape) :
    List Shape → Value → Except CodecError (Option Json)
  | [], _ => .ok none
  | s :: ss, v =>
    if accepts s v then do
      let j ← write path s v
      match readFirst path all j with
      | .ok v' => if v'.same v then return some j else writeFirst path all ss v
      | .error _ => writeFirst path all ss v
    else writeFirst path all ss v

def writeEach (path : String) (i : Nat) :
    List Shape → List Value → Except CodecError (List Json)
  | s :: ss, v :: vs => do
    let j ← write (Path.index path i) s v
    return j :: (← writeEach path (i + 1) ss vs)
  | _, _ => .ok []

/-- Members that are left out are not written. -/
def writeMembers (path : String) : List (Member Shape) → List (String × Value) →
    Except CodecError (List (String × Json))
  | [], _ => .ok []
  | ⟨name, s, default⟩ :: ds, members =>
    match Entries.lookup name members with
    | some v => do
      let j ← write (Path.field path name) s v
      return (name, j) :: (← writeMembers path ds members)
    | none => do
      let _ ← (absent (Path.field path name) ⟨name, s, default⟩).mapError .mismatch
      writeMembers path ds members

end

end Shape
end ObjectSpace
