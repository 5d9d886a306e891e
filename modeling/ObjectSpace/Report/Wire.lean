import ObjectSpace.Json.Printer
import ObjectSpace.Json.Record
import ObjectSpace.Report.Basic
import ObjectSpace.Text.Lossy

/-!
# Reports as bytes

A report travels as a JSON record of status code, category, message and, if there are any, details.
Bytes that are no report are the message of one.
-/

namespace ObjectSpace

namespace Json

def ofStrings (t : Table String String) : Json := .obj (t.entries.map fun (k, s) => (k, .str s))

end Json

namespace Status

def json (s : Status) : Json := .int s.code

def ofRaw? (r : Json.Raw) : Option Status := r.byte?.bind fun b => ofCode? b.toNat

end Status

namespace Category

def json (c : Category) : Json := .str c.name

/-- A name, alone or as the only key of an object that holds null. -/
def ofRaw? : Json.Raw → Option Category
  | .object [(key, .null)] => (Json.unescape key).bind fun cs => ofName? (String.ofList cs)
  | r => r.string?.bind ofName?

end Category

namespace Report

def json (r : Report) : Json :=
  let details := if r.details.isEmpty then [] else [("details", Json.ofStrings r.details)]
  .obj ([("status", r.status.json), ("category", r.category.json), ("message", .str r.message)] ++
    details)

def toBytes (r : Report) : ByteArray := r.json.text.toUTF8

def ofRaw? (r : Json.Raw) : Option Report :=
  match r.fields? ["status", "category", "message", "details"] with
  | some [some status, some category, some message, details] => do
    some
      { status := ← Status.ofRaw? status
        category := ← Category.ofRaw? category
        message := ← message.string?
        details := ← match details with
          | some d => d.strings?
          | none => some {} }
  | _ => none

/-- The report that the payload of a failure with this status holds. -/
def ofBytes (status : Status) (bytes : ByteArray) : Report :=
  match (String.fromUTF8? bytes >>= Json.Raw.ofText?) >>= ofRaw? with
  | some r => r
  | none =>
    { ofMessage (status.category?.getD .serialization) (Lossy.text bytes) with status := status }

end Report
end ObjectSpace
