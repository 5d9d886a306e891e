import ObjectSpace.Report.Basic
import ObjectSpace.Text.Quoted

/-!
# Paths and mismatches

A path names a place inside a value by the members, positions and keys that lead to it. A mismatch
says what was expected at such a place, what was found there, and sometimes why that will not do.
-/

namespace ObjectSpace

namespace Path

/-- A member of the value at `path`. -/
def field (path name : String) : String := if path.isEmpty then name else path ++ "." ++ name

def index (path : String) (i : Nat) : String := path ++ "[" ++ toString i ++ "]"

/-- The place `path` of a value that is itself found at `root`. -/
def within (root path : String) : String :=
  match path.toList with
  | [] => root
  | '[' :: _ => root ++ path
  | _ => root ++ "." ++ path

end Path

structure Mismatch where
  path : String
  expected : String
  received : String
  reason : Option String
  deriving DecidableEq

namespace Mismatch

def of (path expected received : String) : Mismatch := ⟨path, expected, received, none⟩

def withReason (m : Mismatch) (reason : String) : Mismatch := { m with reason := some reason }

/-- Nothing is where a value is required. -/
def missing (path expected : String) : Mismatch :=
  ⟨path, expected, "nothing", some "missing required value"⟩

def within (m : Mismatch) (root : String) : Mismatch := { m with path := Path.within root m.path }

def message (m : Mismatch) : String :=
  let path := if m.path.isEmpty then "<value>" else m.path
  let reason := match m.reason with
    | some r => " (" ++ r ++ ")"
    | none => ""
  "validation failed at " ++ path ++ ": expected " ++ m.expected ++ ", received " ++ m.received ++
    reason

def details (m : Mismatch) : Table String String :=
  let t := Table.ofList
    [("path", m.path), ("expected", m.expected), ("received", m.received)]
  match m.reason with
  | some r => t.insert "reason" r
  | none => t

instance : Reported Mismatch where
  category _ := .validation
  message := message
  details := details

end Mismatch
end ObjectSpace
