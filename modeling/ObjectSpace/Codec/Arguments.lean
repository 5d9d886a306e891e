import ObjectSpace.Codec.Payload

/-!
# Arguments of calls

The argument of a method with one parameter is a payload of its own; an empty payload stands for
the parameter's default. A variadic call is an object of an array of arguments by position and an
object of arguments by name. A parameter takes its argument from one of them, and its default, or
null, where neither has one.
-/

namespace ObjectSpace

namespace Param

/-- What a parameter is that gets no argument. -/
def absent (p : Param) : Except CodecError Value := (Shape.absent p.name p).mapError .mismatch

def encode (p : Param) (v : Value) : Except CodecError ByteArray :=
  if v.isNull && !p.shape.isNullable then
    match p.default with
    | some _ => .ok .empty
    | none => .error (.mismatch (.missing p.name p.shape.label))
  else p.shape.encodeLoose p.name v

def decode (p : Param) (bytes : ByteArray) : Except CodecError Value :=
  if Payload.isBlank bytes then p.absent else p.shape.decode p.name bytes

end Param

namespace Arguments

def positionalKey : String := "positional"
def namedKey : String := "named"

def tooMany (params : List Param) (given : Nat) : CodecError :=
  .mismatch ((Mismatch.of positionalKey
    ("at most " ++ toString params.length ++ " positional arguments")
    (toString given)).withReason "too many positional arguments")

def unknownName (name : String) : CodecError :=
  .mismatch (.of name "declared parameter" "unknown name")

def suppliedTwice (name : String) : CodecError :=
  .mismatch ((Mismatch.of name "single value" "positional and named value").withReason
    "argument supplied twice")

def writeOne (p : Param) (v : Value) : Except CodecError Json := p.shape.writeLoose p.name v

/-- The document of a named argument, if its parameter is not one of the first `taken`. -/
def writeNamed (params : List Param) (taken : Nat) (name : String) (v : Value) :
    Except CodecError (String × Json) :=
  match params.findIdx? (·.name == name) with
  | none => .error (unknownName name)
  | some i =>
    if i < taken then .error (suppliedTwice name)
    else
      match params[i]? with
      | some p => (writeOne p v).map (name, ·)
      | none => .error (unknownName name)

def encode (params : List Param) (positional : List Value) (named : Table String Value) :
    Except CodecError ByteArray := do
  if params.length < positional.length then throw (tooMany params positional.length)
  let items ← (params.zip positional).mapM fun (p, v) => writeOne p v
  let members ← named.entries.mapM fun (name, v) => writeNamed params positional.length name v
  let _ ← ((params.drop positional.length).filter fun p => !named.contains p.name).mapM Param.absent
  return (Json.object [(positionalKey, .arr items), (namedKey, .object members)]).text.toUTF8

/-- The arguments by position and by name that a document carries. -/
def split : Json → Except Mismatch (List Json × List (String × Json))
  | .obj members => do
    let items ← match Entries.lookup positionalKey members with
      | none | some .null => .ok []
      | some (.arr items) => .ok items
      | some j => .error (.of positionalKey "array" j.kind)
    let named ← match Entries.lookup namedKey members with
      | none | some .null => .ok []
      | some (.obj named) => .ok named
      | some j => .error (.of namedKey "object" j.kind)
    match members.find? fun (k, _) => k != positionalKey && k != namedKey with
    | some (k, _) => .error (.of k "positional or named" "unexpected key")
    | none => return (items, named)
  | j => .error (.of "" "argument envelope object" j.kind)

/-- The argument of one parameter out of the documents that are supplied for it. -/
def readOne (p : Param) : Option Json → Option Json → Except CodecError Value
  | some _, some _ => .error (suppliedTwice p.name)
  | some j, none | none, some j => (p.shape.read p.name j).mapError .mismatch
  | none, none => p.absent

/-- One value for each parameter; `items` are the arguments by position that are left. -/
def readAll (named : List (String × Json)) : List Param → List Json →
    Except CodecError (List Value)
  | [], _ => .ok []
  | p :: ps, items => do
    let v ← readOne p items.head? (Entries.lookup p.name named)
    return v :: (← readAll named ps items.tail)

def decode (params : List Param) (bytes : ByteArray) : Except CodecError (List Value) := do
  let (items, named) ←
    if Payload.isBlank bytes then pure ([], [])
    else do
      let j ← Payload.document Json.refusal bytes
      (split j).mapError .mismatch
  if params.length < items.length then throw (tooMany params items.length)
  match Shape.undeclared? params named with
  | some name => throw (unknownName name)
  | none => readAll named params items

end Arguments
end ObjectSpace
