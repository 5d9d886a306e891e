import ObjectSpace.Identity.Basic
import ObjectSpace.Report.Basic
import ObjectSpace.Run

/-!
# Stores

A store keeps, for every object, payloads in numbered slots. It reads one slot, writes a batch of
slots as a whole, and deletes an object with all its slots. Each of these may fail.
-/

namespace ObjectSpace

inductive StoreError where
  | unavailable (id : Identity) (reason : String)
  | rejected (id : Identity) (reason : String)
  | io (reason : String)
  deriving DecidableEq

namespace StoreError

def category : StoreError → Category
  | unavailable _ _ => .unavailable
  | rejected _ _ | io _ => .session

def message : StoreError → String
  | unavailable id reason => "store unavailable for " ++ id.text ++ ": " ++ reason
  | rejected id reason => "write rejected for " ++ id.text ++ ": " ++ reason
  | io reason => "I/O error: " ++ reason

instance : Reported StoreError where
  category := category
  message := message

end StoreError

/-- The payloads of one object by slot. -/
abbrev Slots := Table UInt32 ByteArray

class Store (σ : Type) where
  get : Identity → UInt32 → Run σ StoreError (Option ByteArray)
  put : Identity → Slots → Run σ StoreError Unit
  /-- Whether there was anything to delete. -/
  delete : Identity → Run σ StoreError Bool

end ObjectSpace
