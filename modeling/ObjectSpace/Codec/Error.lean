import ObjectSpace.Binary64.Text
import ObjectSpace.Value.Path

/-!
# Failures of the codec
-/

namespace ObjectSpace

inductive CodecError where
  | mismatch (m : Mismatch)
  /-- The bytes are not one JSON document, for the reason that their reader gives. -/
  | malformed (reason : String)
  /-- JSON has no text for the number found at the path. -/
  | notFinite (path : String) (x : Binary64)
  deriving DecidableEq

namespace CodecError

def category : CodecError → Category
  | mismatch _ | malformed _ => .validation
  | notFinite _ _ => .serialization

def message : CodecError → String
  | mismatch m => m.message
  | malformed reason => "malformed payload: " ++ reason
  | notFinite path x => "serialization error: " ++ path ++ ": non-finite float " ++ x.plainText

def details : CodecError → Table String String
  | mismatch m => m.details
  | _ => {}

instance : Reported CodecError where
  category := category
  message := message
  details := details

instance : Coe Mismatch CodecError := ⟨mismatch⟩

end CodecError

end ObjectSpace
