import ObjectSpace.Session.Error

/-!
# Failures of a space

A failure inside a space says in which part of it, and is reported as the part reports it.
-/

namespace ObjectSpace

inductive SpaceError where
  | noServices
  | session (e : SessionError)
  | invoke (e : InvokeError)
  | proxy (e : ProxyError)
  | state (e : StateError)
  | mismatch (m : Mismatch)

namespace SpaceError

def category : SpaceError → Category
  | noServices => .session
  | session e => e.category
  | invoke e => e.category
  | proxy e => e.category
  | state e => e.category
  | mismatch _ => .validation

def message : SpaceError → String
  | noServices => "no services registered"
  | session e => "session error: " ++ e.message
  | invoke e => "invoke error: " ++ e.message
  | proxy e => "proxy error: " ++ e.message
  | state e => "state error: " ++ e.message
  | mismatch m => m.message

/-- What the message is about, where the failure is that of a part. -/
def cause? : SpaceError → Option String
  | noServices | mismatch _ => none
  | session e => some e.message
  | invoke e => some e.message
  | proxy e => some e.message
  | state e => some e.message

def report : SpaceError → Report
  | noServices => .ofMessage .session noServices.message
  | session e => e.report
  | invoke e => Reported.report e
  | proxy e => e.report
  | state e => Reported.report e
  | mismatch m => Reported.report m

instance : Reported SpaceError where
  category := category
  message := message
  report := report

end SpaceError
end ObjectSpace
