import ObjectSpace.Codec.Write

/-!
# Coercion

`Shape.coerce` takes loosely typed input to a value of a shape. It widens and parses where nothing
is lost, takes a scalar for a list of one, and refuses everything else.
-/

namespace ObjectSpace
namespace Shape

def lowerText (cs : List Char) : String := String.ofList (cs.map Char.toLower)

/-- Floating-point numbers below this one in size convert to whole numbers. -/
def wholeLimit : Nat := 92 * 10 ^ 17

def coerceInt (path : String) : Value → Except Mismatch Value
  | .int n => .ok (.int n)
  | .float x =>
    match x.toInt? with
    | some n =>
      if n.natAbs < wholeLimit then .ok (.int (Int64.ofInt n)) else .error (lossy x)
    | none => .error (lossy x)
  | .str s =>
    match (Integer.ofChars? (Text.trim s)).bind int64? with
    | some n => .ok (.int n)
    | none =>
      .error ((Mismatch.of path "int" (Text.quoted s)).withReason "not an integer literal")
  | v => .error (int.refused path v)
where
  lossy (x : Binary64) : Mismatch :=
    (Mismatch.of path "int" x.plainText).withReason "conversion would lose the fractional part"

def coerceFloat (path : String) : Value → Except Mismatch Value
  | .float x => if x.isFinite then .ok (.float x) else .error (float.refused path (.float x))
  | .int n =>
    if n.toInt.natAbs ≤ maxExactInt then .ok (.float (.ofInt n.toInt))
    else .error (notExact path n.toInt)
  | .str s =>
    match (Binary64.ofChars? (Text.trim s)).filter Binary64.isFinite with
    | some x => .ok (.float x)
    | none =>
      .error ((Mismatch.of path "float" (Text.quoted s)).withReason "not a finite number literal")
  | v => .error (float.refused path v)

def coerceBool (path : String) : Value → Except Mismatch Value
  | .bool b => .ok (.bool b)
  | .int n =>
    if n = 0 then .ok (.bool false)
    else if n = 1 then .ok (.bool true)
    else .error (bool.refused path (.int n))
  | .str s =>
    if lowerText (Text.trim s) = "true" then .ok (.bool true)
    else if lowerText (Text.trim s) = "false" then .ok (.bool false)
    else .error (.of path "bool" (Text.quoted s))
  | v => .error (bool.refused path v)

def coerceStr (path : String) : Value → Except Mismatch Value
  | .str s => .ok (.str s)
  | .int n => .ok (.str (Integer.text n.toInt))
  | .float x =>
    if x.isFinite then .ok (.str x.plainText) else .error (str.refused path (.float x))
  | .bool b => .ok (.str (toString b))
  | .uuid u => .ok (.str u.text)
  | .instant t => .ok (.str t.text)
  | v => .error (str.refused path v)

def byteOf (path : String) (i : Nat) : Value → Except Mismatch UInt8
  | .int n =>
    if 0 ≤ n.toInt && n.toInt < 256 then .ok (UInt8.ofNat n.toInt.toNat)
    else .error (.of (Path.index path i) "byte" (Integer.text n.toInt))
  | v => .error (.of (Path.index path i) "byte" v.kind)

/-- Text is its UTF-8 encoding. -/
def coerceBytes (path : String) : Value → Except Mismatch Value
  | .bytes b => .ok (.bytes b)
  | .str s => .ok (.bytes s.toUTF8)
  | .list items => (eachAt (byteOf path) 0 items).map fun bs => .bytes ⟨bs.toArray⟩
  | v => .error (bytes.refused path v)

def coerceInstant (path : String) : Value → Except Mismatch Value
  | .instant t => .ok (.instant t)
  | .str s => instantOfText path s
  | v => .error (instant.refused path v)

def coerceUuid (path : String) : Value → Except Mismatch Value
  | .uuid u => .ok (.uuid u)
  | .str s => uuidOfText Uuid.refusal path s
  | v => .error (uuid.refused path v)

def coerceChoice (name : String) (variants : List String) (path : String) :
    Value → Except Mismatch Value
  | .str s => choiceOfText name variants path s
  | v => .error ((choice name variants).refused path v)

/-- The place of a fault inside an identity, for an identity that is found at `path`. -/
def identityPath (path inner : String) : String :=
  let head := "identity".toList
  if head.isPrefixOf inner.toList then path ++ String.ofList (inner.toList.drop head.length)
  else path

def coerceReference (classId path : String) (v : Value) : Except Mismatch Value := do
  let id ← (Identity.ofValue v).mapError fun m => { m with path := identityPath path m.path }
  checkClass classId path id
  return .ref id

/-- The name that a key of a map stands for. -/
def nameOfKey (s : Shape) (path : String) : Value × Value → Except Mismatch (String × Value)
  | (.str name, v) => .ok (name, v)
  | (k, _) => .error (s.refused (Path.key path k) k)

/-- The members that a value has as a record. -/
def membersOf (s : Shape) (path : String) : Value → Except Mismatch (List (String × Value))
  | .record members => .ok members
  | .map entries => (entries.mapM (nameOfKey s path)).map Entries.ofList
  | v => .error (s.refused path v)

/-- The entries that a value has as a map. -/
def entriesOf (s : Shape) (path : String) : Value → Except Mismatch (List (Value × Value))
  | .map entries => .ok entries
  | .record members => .ok (members.map fun (name, v) => (.str name, v))
  | v => .error (s.refused path v)

mutual

/-- Untyped data: sequences of all kinds become lists, and maps become records. -/
def coercePlain (path : String) : Value → Except Mismatch Value
  | .null => .ok .null
  | .bool b => .ok (.bool b)
  | .int n => .ok (.int n)
  | .str s => .ok (.str s)
  | .float x => if x.isFinite then .ok (.float x) else .error (any.refused path (.float x))
  | .list items => (coercePlainItems path 0 items).map .list
  | .set items => (coercePlainItems path 0 items).map .list
  | .tuple items => (coercePlainItems path 0 items).map .list
  | .record members => (coercePlainMembers path members).map .ofMembers
  | .map entries => (coercePlainEntries path entries).map .ofMembers
  | v => .error (any.refused path v)

def coercePlainItems (path : String) (i : Nat) : List Value → Except Mismatch (List Value)
  | [] => .ok []
  | v :: vs => do
    let v ← coercePlain (Path.index path i) v
    return v :: (← coercePlainItems path (i + 1) vs)

def coercePlainMembers (path : String) :
    List (String × Value) → Except Mismatch (List (String × Value))
  | [] => .ok []
  | (name, v) :: ms => do
    let v ← coercePlain (Path.field path name) v
    return (name, v) :: (← coercePlainMembers path ms)

def coercePlainEntries (path : String) :
    List (Value × Value) → Except Mismatch (List (String × Value))
  | [] => .ok []
  | (k, v) :: es =>
    match k with
    | .str name => do
      let v ← coercePlain (Path.field path name) v
      return (name, v) :: (← coercePlainEntries path es)
    | _ => .error (.of (Path.key path k) "str key" k.kind)

end

mutual

def coerce (path : String) : Shape → Value → Except Mismatch Value
  | int, v => coerceInt path v
  | float, v => coerceFloat path v
  | bool, v => coerceBool path v
  | str, v => coerceStr path v
  | bytes, v => coerceBytes path v
  | instant, v => coerceInstant path v
  | uuid, v => coerceUuid path v
  | choice name variants, v => coerceChoice name variants path v
  | reference classId, v => coerceReference classId path v
  | any, v => coercePlain path v
  | optional inner, v =>
    match v with
    | .null => .ok .null
    | _ => coerce path inner v
  | union alternatives, v =>
    match coerceAccepted path alternatives v with
    | some result => result
    | none =>
      (coerceFirst path alternatives v).mapError (noAlternative (union alternatives) path v.kind)
  | list element, v =>
    match v with
    | .list items | .set items | .tuple items =>
      (eachAt (fun i item => coerce (Path.index path i) element item) 0 items).map .list
    | .null | .map _ | .record _ => .error ((list element).refused path v)
    | scalar => (coerce (Path.index path 0) element scalar).map fun v => .list [v]
  | set element, v =>
    match v with
    | .list items | .set items | .tuple items =>
      (eachAt (fun i item => coerce (Path.index path i) element item) 0 items).map .setOf
    | _ => .error ((set element).refused path v)
  | tuple elements, v =>
    match v with
    | .list items | .tuple items =>
      if items.length = elements.length then (coerceEach path 0 elements items).map .tuple
      else .error (.of path (tuple elements).label (toString items.length ++ " elements"))
    | _ => .error ((tuple elements).refused path v)
  | map key value, v => do
    let entries ← entriesOf (map key value) path v
    let entries ← entries.mapM fun (k, v) => do
      let key ← coerce (Path.key path k) key k
      return (key, ← coerce (Path.key path k) value v)
    canonicalEntries path entries
  | record name declared, v => do
    let members ← membersOf (record name declared) path v
    match undeclared? declared members with
    | some unknown => .error (noSuchField (record name declared) path unknown)
    | none => (coerceMembers path declared members).map .ofMembers

/-- The outcome under the first alternative that accepts the value, if there is one. -/
def coerceAccepted (path : String) : List Shape → Value → Option (Except Mismatch Value)
  | [], _ => none
  | s :: ss, v => if accepts s v then some (coerce path s v) else coerceAccepted path ss v

/-- The value under the first alternative that can coerce it, or how each failed. -/
def coerceFirst (path : String) : List Shape → Value → Except (List String) Value
  | [], _ => .error []
  | s :: ss, v =>
    match coerce path s v with
    | .ok v => .ok v
    | .error m => (coerceFirst path ss v).mapError ((s.label ++ ": " ++ m.received) :: ·)

def coerceEach (path : String) (i : Nat) :
    List Shape → List Value → Except Mismatch (List Value)
  | s :: ss, v :: vs => do
    let v ← coerce (Path.index path i) s v
    return v :: (← coerceEach path (i + 1) ss vs)
  | _, _ => .ok []

def coerceMembers (path : String) : List (Member Shape) → List (String × Value) →
    Except Mismatch (List (String × Value))
  | [], _ => .ok []
  | ⟨name, s, default⟩ :: ds, members => do
    let v ← match Entries.lookup name members with
      | some v => coerce (Path.field path name) s v
      | none => absent (Path.field path name) ⟨name, s, default⟩
    return (name, v) :: (← coerceMembers path ds members)

end

end Shape
end ObjectSpace
