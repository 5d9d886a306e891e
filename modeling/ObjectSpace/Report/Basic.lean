import ObjectSpace.Table

/-!
# Failure reports

Every failure has a category, a message and named details, and is reported in this one shape. The
status under which it crosses between two sides follows from the category.
-/

namespace ObjectSpace

inductive Status where
  | okay
  | invalidRequest
  | appError
  | systemError
  | timeout
  deriving DecidableEq, Inhabited

inductive Category where
  | validation
  | serialization
  | session
  | application
  | timeout
  | unavailable
  deriving DecidableEq, Inhabited

namespace Status

def code : Status → Nat
  | okay => 0
  | invalidRequest => 1
  | appError => 2
  | systemError => 3
  | timeout => 4

def ofCode? : Nat → Option Status
  | 0 => some okay
  | 1 => some invalidRequest
  | 2 => some appError
  | 3 => some systemError
  | 4 => some timeout
  | _ => none

/-- What is said of a code that no status has. -/
def unknownMessage (code : Nat) : String := "unknown response status " ++ toString code

def name : Status → String
  | okay => "okay"
  | invalidRequest => "invalid_request"
  | appError => "app_error"
  | systemError => "system_error"
  | timeout => "timeout"

/-- The category of a failure of which only the status is known. -/
def category? : Status → Option Category
  | okay => none
  | invalidRequest => some .validation
  | appError => some .application
  | systemError => some .serialization
  | timeout => some .timeout

@[simp] theorem ofCode?_code (s : Status) : ofCode? s.code = some s := by cases s <;> rfl

end Status

namespace Category

def all : List Category := [validation, serialization, session, application, timeout, unavailable]

def name : Category → String
  | validation => "validation"
  | serialization => "serialization"
  | session => "session"
  | application => "application"
  | timeout => "timeout"
  | unavailable => "unavailable"

def ofName? (s : String) : Option Category := all.find? (·.name == s)

def status : Category → Status
  | validation => .invalidRequest
  | application => .appError
  | serialization | session | unavailable => .systemError
  | timeout => .timeout

/-- Whether the same request may succeed when it is made again. -/
def isRetryable : Category → Bool
  | timeout | unavailable | session => true
  | _ => false

@[simp] theorem ofName?_name (c : Category) : ofName? c.name = some c := by cases c <;> rfl

theorem status_ne_okay (c : Category) : c.status ≠ .okay := by cases c <;> decide

end Category

structure Report where
  status : Status
  category : Category
  message : String
  details : Table String String
  deriving DecidableEq

namespace Report

def ofMessage (category : Category) (message : String) : Report :=
  ⟨category.status, category, message, {}⟩

def text (r : Report) : String := "[" ++ r.category.name ++ "] " ++ r.message

def isRetryable (r : Report) : Bool := r.category.isRetryable

end Report

/-- Types of failures. -/
class Reported (ε : Type) where
  category : ε → Category
  message : ε → String
  details : ε → Table String String := fun _ => {}
  /-- A failure that was reported elsewhere before keeps that report. -/
  report : ε → Report := fun e => ⟨(category e).status, category e, message e, details e⟩

end ObjectSpace
