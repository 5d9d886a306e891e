import ObjectSpace.Settings.Text
import ObjectSpace.Text.Blank

/-!
# Settings from the environment

Variables that are set take the place of the standard values. They are read in one order, and the
first that cannot be read is the fault.
-/

namespace ObjectSpace
namespace Settings

def lowercase (cs : List Char) : List Char := cs.map Char.toLower

def bool? (s : String) : Option Bool :=
  if s ∈ ["1", "true", "yes", "on"] then some true
  else if s ∈ ["0", "false", "no", "off"] then some false
  else none

def readBool (key text : String) : Except Fault Bool :=
  let word := String.ofList (lowercase (Text.trim text))
  match bool? word with
  | some b => .ok b
  | none => .error (.notBool key word)

/-- A number below the bound, with white space around it. -/
def readNumber (bound : Nat) (key text : String) : Except Fault Nat :=
  match (Integer.unsignedOfChars? (Text.trim text)).filter (· < bound) with
  | some n => .ok n
  | none => .error (.notNumber key text)

/-- Reads a variable if it is set. -/
def setting (look : String → Option String) (read : String → String → Except Fault α)
    (key : String) (standard : α) : Except Fault α :=
  match look key with
  | some text => read key text
  | none => .ok standard

def ofEnvironment (look : String → Option String) : Except Fault Settings := do
  let autoCommit ← setting look readBool "OBJWIRE_AUTO_COMMIT" standard.autoCommit
  let interval ← setting look (readNumber (2 ^ 64)) "OBJWIRE_AUTO_COMMIT_INTERVAL_MS"
    standard.commitInterval
  let localOnly ← setting look readBool "OBJWIRE_LOCAL_ONLY" standard.localOnly
  let timeout ← setting look (readNumber (2 ^ 64)) "OBJWIRE_CALL_TIMEOUT_MS" standard.callTimeout
  let partition ← setting look (readNumber (2 ^ 32)) "OBJWIRE_DEFAULT_PARTITION"
    standard.partition.toNat
  checked ⟨autoCommit, interval, localOnly, timeout, partition.toUInt32⟩

end Settings
end ObjectSpace
