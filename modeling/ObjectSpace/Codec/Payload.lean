import ObjectSpace.Codec.Coerce
import ObjectSpace.Json.Raw

/-!
# Payloads

A payload is the UTF-8 text of one document. A payload of nothing but white space stands for no
value.
-/

namespace ObjectSpace

namespace Payload

def isBlank (bytes : ByteArray) : Bool := bytes.data.all Text.isAsciiBlank

/-- Bytes that are the text of no document are refused for this reason. -/
def document (reason : String) (bytes : ByteArray) : Except CodecError Json :=
  match Json.ofBytes? bytes with
  | some j => .ok j
  | none => .error (.malformed reason)

end Payload

namespace Shape

def encode (path : String) (s : Shape) (v : Value) : Except CodecError ByteArray :=
  (s.write path v).map fun j => j.text.toUTF8

def decode (path : String) (s : Shape) (bytes : ByteArray) : Except CodecError Value :=
  if Payload.isBlank bytes then
    if s.isNullable then .ok .null else .error (.mismatch (.missing path s.label))
  else do
    let j ← Payload.document Json.refusal bytes
    (s.read path j).mapError .mismatch

/-- Coerces and encodes. -/
def encodeLoose (path : String) (s : Shape) (v : Value) : Except CodecError ByteArray := do
  let v ← (s.coerce path v).mapError .mismatch
  s.encode path v

/-- Coerces and writes. -/
def writeLoose (path : String) (s : Shape) (v : Value) : Except CodecError Json := do
  let v ← (s.coerce path v).mapError .mismatch
  s.write path v

end Shape
end ObjectSpace
