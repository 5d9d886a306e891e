import ObjectSpace.Class.Basic
import ObjectSpace.Codec.Error
import ObjectSpace.Store.Basic
import ObjectSpace.Text.Duration

/-!
# Failures of references

What goes wrong when an object is named, and when it is called or accessed from afar. A failure
that the far side reports keeps its report.
-/

namespace ObjectSpace

inductive TransportError where
  | unavailable (reason : String)
  | timeout (ms : Nat)
  | closed
  deriving DecidableEq

namespace TransportError

/-- Nothing carries calls to the object. -/
def unconfigured (id : Identity) : TransportError :=
  unavailable ("no transport configured for " ++ id.text)

def category : TransportError → Category
  | timeout _ => .timeout
  | unavailable _ | closed => .unavailable

def message : TransportError → String
  | unavailable reason => "transport unavailable: " ++ reason
  | timeout ms => "transport timed out after " ++ Text.duration ms
  | closed => "transport closed"

instance : Reported TransportError where
  category := category
  message := message

end TransportError

def Access.name : Access → String
  | read => "read"
  | write => "write"

inductive ProxyError where
  | mismatch (m : Mismatch)
  | codec (e : CodecError)
  | store (e : StoreError)
  | transport (e : TransportError)
  | schema (e : SchemaError)
  | unknownMember (classId member : String)
  /-- The accessor does not have this access. -/
  | wrongAccess (accessor : String) (wanted : Access)
  | timeout (method : String) (ms : Nat)
  | remote (r : Report)
  /-- The caller may not wait where it stands. -/
  | cannotBlock (reason : String)

namespace ProxyError

def category : ProxyError → Category
  | mismatch _ | schema _ | unknownMember _ _ | wrongAccess _ _ => .validation
  | codec e => e.category
  | store e => e.category
  | transport e => e.category
  | timeout _ _ => .timeout
  | remote r => r.category
  | cannotBlock _ => .serialization

def message : ProxyError → String
  | mismatch m => m.message
  | codec e => e.message
  | store e => e.message
  | transport e => e.message
  | schema e => e.message
  | unknownMember classId member => "class " ++ classId ++ " has no member " ++ member
  | wrongAccess accessor wanted => accessor ++ " is not a " ++ wanted.name ++ " accessor"
  | timeout method ms => "call to " ++ method ++ " timed out after " ++ Text.duration ms
  | remote r => "remote call failed: " ++ r.text
  | cannotBlock reason => "cannot block on a remote call here: " ++ reason

def details : ProxyError → Table String String
  | mismatch m => m.details
  | codec e => e.details
  | remote r => r.details
  | _ => {}

def report : ProxyError → Report
  | remote r => r
  | e => ⟨e.category.status, e.category, e.message, e.details⟩

instance : Reported ProxyError where
  category := category
  message := message
  details := details
  report := report

end ProxyError
end ObjectSpace
