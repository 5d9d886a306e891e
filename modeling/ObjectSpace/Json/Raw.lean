import ObjectSpace.Json.Token

/-!
# Documents as they are written

The structure of a document before its strings and numbers are read: members keep their order and
may repeat a key. Reading is a machine over the tokens that keeps the arrays and objects which are
still open.
-/

namespace ObjectSpace
namespace Json

inductive Raw where
  | null
  | bool (b : Bool)
  | number (raw : List Char)
  | string (raw : List Char)
  | array (items : List Raw)
  | object (members : List (List Char × Raw))
  deriving Inhabited

namespace Raw

/-- An array or object that is not closed yet, with what it holds in reverse. -/
inductive Frame where
  | array (done : List Raw)
  | object (done : List (List Char × Raw)) (key : List Char)

/-- What the tokens must go on with. -/
inductive Expectation where
  | value
  | firstItem
  | firstKey
  | key (done : List (List Char × Raw))
  | colon (done : List (List Char × Raw)) (key : List Char)
  | follow (r : Raw)

/-- Closes the object or array around a finished value. -/
def close (t : Token) (r : Raw) : Frame → Option Raw
  | .array done => if t = .closeArray then some (.array (r :: done).reverse) else none
  | .object done key => if t = .closeObject then some (.object ((key, r) :: done).reverse) else none

def valueStep (t : Token) (stack : List Frame) : Option (Expectation × List Frame) :=
  match t with
  | .null => some (.follow .null, stack)
  | .bool b => some (.follow (.bool b), stack)
  | .number raw => some (.follow (.number raw), stack)
  | .string raw => some (.follow (.string raw), stack)
  | .openArray => some (.firstItem, stack)
  | .openObject => some (.firstKey, stack)
  | _ => none

def step (t : Token) : Expectation → List Frame → Option (Expectation × List Frame)
  | .value, stack => valueStep t stack
  | .firstItem, stack =>
    if t = .closeArray then some (.follow (.array []), stack)
    else valueStep t (.array [] :: stack)
  | .firstKey, stack =>
    match t with
    | .closeObject => some (.follow (.object []), stack)
    | .string raw => some (.colon [] raw, stack)
    | _ => none
  | .key done, stack =>
    match t with
    | .string raw => some (.colon done raw, stack)
    | _ => none
  | .colon done key, stack => if t = .colon then some (.value, .object done key :: stack) else none
  | .follow _, [] => none
  | .follow r, frame :: stack =>
    if t = .comma then
      match frame with
      | .array done => some (.value, .array (r :: done) :: stack)
      | .object done key => some (.key ((key, r) :: done), stack)
    else (close t r frame).map fun r => (.follow r, stack)

def run : List Token → Expectation → List Frame → Option Raw
  | [], .follow r, [] => some r
  | [], _, _ => none
  | t :: ts, e, stack => (step t e stack).bind fun (e, stack) => run ts e stack

def ofTokens? (ts : List Token) : Option Raw := run ts .value []

def ofText? (s : String) : Option Raw := tokens? s.toList >>= ofTokens?

/-- The text of a string. -/
def string? : Raw → Option String
  | .string raw => (unescape raw).map String.ofList
  | _ => none

/-- A whole number is held exactly where it can be and rounded otherwise; negative zero is no whole
number. A number that rounds to infinity is refused. -/
def number? (raw : List Char) : Option Json :=
  let rounded := do
    let x ← Binary64.ofChars? raw
    if x.isFinite then some (Json.float x) else none
  match Integer.ofChars? raw with
  | some n => if isInt n && raw != ['-', '0'] then some (.int n) else rounded
  | none => rounded

mutual

/-- The document, if it nests no deeper than `depth`. -/
def json? (depth : Nat) : Raw → Option Json
  | .null => some .null
  | .bool b => some (.bool b)
  | .number raw => number? raw
  | .string raw => (unescape raw).map fun cs => .str (String.ofList cs)
  | .array items => if depth = 0 then none else (items? (depth - 1) items).map .arr
  | .object members => if depth = 0 then none else (members? (depth - 1) members).map Json.object

def items? (depth : Nat) : List Raw → Option (List Json)
  | [] => some []
  | r :: rs => do return (← json? depth r) :: (← items? depth rs)

def members? (depth : Nat) : List (List Char × Raw) → Option (List (String × Json))
  | [] => some []
  | (key, r) :: rs => do
    return (String.ofList (← unescape key), ← json? depth r) :: (← members? depth rs)

end

/-- Arrays and objects may stand in each other up to this depth. -/
def maxDepth : Nat := 127

end Raw

/-- Reads a text that holds one document. -/
def ofText? (s : String) : Option Json := Raw.ofText? s >>= Raw.json? Raw.maxDepth

/-- Reads the UTF-8 text of one document. -/
def ofBytes? (bytes : ByteArray) : Option Json := String.fromUTF8? bytes >>= ofText?

/-- Why bytes are refused that are the text of no document. -/
def refusal : String := "no JSON document"

end Json
end ObjectSpace
