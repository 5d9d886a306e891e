import ObjectSpace.Settings.Basic
import ObjectSpace.Toml.Document

/-!
# Settings as text

Settings are read from a file in which keys that are missing keep their standard values, and keys that
are not known say nothing.
-/

namespace ObjectSpace
namespace Settings

def flagOf (o : Toml.Outline) (key : String) (standard : Bool) : Except Fault Bool :=
  match o.get? key with
  | none => .ok standard
  | some (.flag b) => .ok b
  | some _ => .error .malformed

/-- A number below the bound. -/
def numberOf (o : Toml.Outline) (key : String) (bound standard : Nat) : Except Fault Nat :=
  match o.get? key with
  | none => .ok standard
  | some (.number n) => if 0 ≤ n && n < bound then .ok n.toNat else .error .malformed
  | some _ => .error .malformed

/-- Settings without a fault. -/
def checked (s : Settings) : Except Fault Settings :=
  match s.fault? with
  | some f => .error f
  | none => .ok s

def ofOutline (o : Toml.Outline) : Except Fault Settings := do
  let autoCommit ← flagOf o "auto_commit" standard.autoCommit
  let interval ← numberOf o "auto_commit_interval_ms" (2 ^ 64) standard.commitInterval
  let localOnly ← flagOf o "local_only_missing_identity" standard.localOnly
  let timeout ← numberOf o "call_timeout_ms" (2 ^ 64) standard.callTimeout
  let partition ← numberOf o "default_partition" (2 ^ 32) standard.partition.toNat
  checked ⟨autoCommit, interval, localOnly, timeout, partition.toUInt32⟩

def ofText (text : String) : Except Fault Settings :=
  match Toml.outline? text with
  | some o => ofOutline o
  | none => .error .malformed

def line (key value : String) : String := key ++ " = " ++ value ++ "\n"

/-- Whether the durations are among the numbers that can be written. -/
def isWritable (s : Settings) : Bool := s.commitInterval < 2 ^ 63 && s.callTimeout < 2 ^ 63

def text (s : Settings) : Except Fault String :=
  if s.isWritable then
    .ok (String.join [line "auto_commit" (toString s.autoCommit),
      line "auto_commit_interval_ms" (toString s.commitInterval),
      line "local_only_missing_identity" (toString s.localOnly),
      line "call_timeout_ms" (toString s.callTimeout),
      line "default_partition" (toString s.partition.toNat)])
  else .error .unwritable

end Settings
end ObjectSpace
