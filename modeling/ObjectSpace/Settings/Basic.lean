import ObjectSpace.Text.Duration
import ObjectSpace.Text.Quoted

/-!
# Settings of a space

Durations are in milliseconds.
-/

namespace ObjectSpace

structure Settings where
  /-- Whether sessions are committed in the background. -/
  autoCommit : Bool
  commitInterval : Nat
  /-- Whether an object may be created without an identity. -/
  localOnly : Bool
  callTimeout : Nat
  partition : UInt32
  deriving DecidableEq

namespace Settings

def standard : Settings := ⟨true, 1000, true, 30000, 0⟩

instance : Inhabited Settings := ⟨standard⟩

inductive Fault where
  | zeroInterval
  | zeroTimeout
  | notBool (key text : String)
  | notNumber (key text : String)
  | malformed
  /-- A duration beyond the numbers that can be written. -/
  | unwritable
  deriving DecidableEq

def Fault.message : Fault → String
  | zeroInterval => "auto_commit_interval_ms must be non-zero"
  | zeroTimeout => "call_timeout_ms must be non-zero"
  | notBool key text => key ++ ": expected a boolean, got " ++ Text.quoted text
  | notNumber key text => key ++ ": expected a number, got " ++ Text.quoted text
  | malformed => "TOML parse error"
  | unwritable => "out-of-range value for u64 type"

/-- What is wrong with settings whose parts are all of the right kind. -/
def fault? (s : Settings) : Option Fault :=
  if s.commitInterval = 0 then some .zeroInterval
  else if s.callTimeout = 0 then some .zeroTimeout
  else none

def debugText (s : Settings) : String :=
  "SessionConfig \x7b auto_commit: " ++ toString s.autoCommit ++ ", auto_commit_interval: " ++
    Text.duration s.commitInterval ++ ", local_only_missing_identity: " ++ toString s.localOnly ++
    ", default_call_timeout: " ++ Text.duration s.callTimeout ++ ", default_partition: " ++
    toString s.partition.toNat ++ " \x7d"

end Settings
end ObjectSpace
