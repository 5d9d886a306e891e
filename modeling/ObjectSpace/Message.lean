import ObjectSpace.Report.Wire

/-!
# Messages

A call travels as an envelope and comes back as a reply. The payload of a reply that is not okay
holds the report of the failure.
-/

namespace ObjectSpace

structure Envelope where
  method : String
  payload : ByteArray
  options : Table String String
  deriving DecidableEq

structure Reply where
  status : Status
  payload : ByteArray
  deriving DecidableEq

def Json.ofBytes (bytes : ByteArray) : Json := .arr (bytes.data.toList.map fun b => .int b.toNat)

namespace Envelope

def empty : Envelope := ⟨"", .empty, {}⟩

def json (e : Envelope) : Json :=
  .obj [("method_id", .str e.method), ("payload", Json.ofBytes e.payload),
    ("options", Json.ofStrings e.options)]

/-- An envelope may be written without options. -/
def ofText? (s : String) : Option Envelope := do
  let r ← Json.Raw.ofText? s
  match r.fields? ["method_id", "payload", "options"] with
  | some [some method, some payload, options] =>
    let options ← match options with
      | some o => o.strings?
      | none => some {}
    some ⟨← method.string?, ← payload.bytes?, options⟩
  | _ => none

end Envelope

namespace Reply

def ok (payload : ByteArray) : Reply := ⟨.okay, payload⟩

def failure (r : Report) : Reply := ⟨r.status, r.toBytes⟩

def isOk (r : Reply) : Bool := r.status == .okay

/-- The report of a reply that is not okay. -/
def report? (r : Reply) : Option Report :=
  if r.isOk then none else some (.ofBytes r.status r.payload)

def json (r : Reply) : Json :=
  .obj [("status", r.status.json), ("payload", Json.ofBytes r.payload)]

def ofText? (s : String) : Option Reply := do
  let r ← Json.Raw.ofText? s
  match r.fields? ["status", "payload"] with
  | some [some status, some payload] => some ⟨← Status.ofRaw? status, ← payload.bytes?⟩
  | _ => none

end Reply
end ObjectSpace
