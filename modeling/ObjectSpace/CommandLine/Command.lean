import ObjectSpace.CommandLine.Arguments
import ObjectSpace.Greeter
import ObjectSpace.Settings.Text
import ObjectSpace.Space.Basic
import ObjectSpace.Store.Memory

/-!
# Commands

A command works at a desk: a text that it prints to, and a pool over a store in memory. What was
printed before a failure stays printed.
-/

namespace ObjectSpace
namespace CommandLine

inductive CommandError where
  | settings (f : Settings.Fault)
  | space (e : SpaceError)
  | proxy (e : ProxyError)
  | unreadable (path reason : String)

namespace CommandError

def message : CommandError → String
  | settings f => (SessionError.settings f).message
  | space e => e.message
  | proxy e => e.message
  | unreadable path _ => "reading " ++ path

def cause? : CommandError → Option String
  | settings _ | proxy _ => none
  | space e => e.cause?
  | unreadable _ reason => some reason

def text (e : CommandError) : String :=
  "Error: " ++ e.message ++
    (match e.cause? with
      | some cause => "\n\nCaused by:\n    " ++ cause
      | none => "") ++ "\n"

end CommandError

abbrev Desk : Type := String × (Pool × Memory)

def Desk.empty : Desk := ("", (.empty, .empty))

abbrev Work (α : Type) : Type := Run Desk CommandError α

def print (line : String) : Work Unit := (Run.modifyState (· ++ line ++ "\n")).onFirst

/-- There is one owner at a desk. -/
def owner : Nat := 0

def onPool (r : Run (Pool × Memory) SpaceError α) : Work α := (r.mapError .space).onSecond

def onStore (r : Run Memory ProxyError α) : Work α := ((r.mapError .proxy).onSecond).onSecond

def connection (w : Space) : Connection Memory := w.connection w.loopback.transport

/-- Greets as often as asked. -/
def greetings (w : Space) (p : Proxy) (name : String) : Nat → Work Unit
  | 0 => pure ()
  | n + 1 => do
    print (← onStore (p.callAs (connection w) .str "greet" (.str name)))
    greetings w p name n

def greet (w : Space) (name : String) (objectId : UInt64) (times : UInt32) : Work Unit := do
  let target : Target := .parts Greeter.classId w.settings.partition objectId
  let p ← .ofExcept ((w.proxy target).mapError .space)
  greetings w p name times.toNat
  let greeted ← onStore (p.callAs (connection w) (.int .i64) "stats" .null)
  print ("  ✓ " ++ p.identity.text ++ " greeted " ++ toString greeted.val.toInt ++ " times")

/-- Makes a greeter with a greeting of its own. -/
def createGreeter (w : Space) (fresh : UInt64) (greeting : String) :
    Run (Session × Memory) SessionError Identity := do
  let id ← (Run.update fun s =>
    Session.create w.registry w.settings.localOnly fresh s Greeter.classId none).onFirst
  let _ ← Session.onObject id (Resident.change fun o => o.set "greeting" (.str greeting))
  return id

/-- How many were greeted, and the last one of them. -/
def reload (w : Space) (id : Identity) :
    Run (Session × Memory) SessionError (Int × Option String) := do
  (Run.update fun s => (Session.load w.registry s Greeter.classId id).map ((), ·)).onFirst
  let greeted ← Session.onObject id (Resident.getAs (.int .i64) "greeted")
  let last ← Session.onObject id (Resident.getAs (.optional .str) "last_name")
  return (greeted.val.toInt, last)

def printReport (r : CommitReport) : Work Unit :=
  if r.isSuccess then
    print ("✓ shutdown: " ++ toString r.flushed ++ " objects flushed, " ++ toString r.fields ++
      " fields written")
  else r.failures.forM fun (id, report) => print ("✗ " ++ id.text ++ ": " ++ report.message)

def demo (w : Space) (fresh : UInt64) (greeting name : String) : Work Unit := do
  if ← onPool (w.startAutoCommit none) then
    print ("• auto-commit every " ++ Text.duration w.settings.commitInterval)
  let id ← onPool (w.scope owner (createGreeter w fresh greeting))
  let _ ← onPool ((Pool.cleanup .sorted owner).mapError nofun)
  print ("✓ created " ++ id.text)
  let p ← .ofExcept ((w.proxy (.record id)).mapError .space)
  let reply ← onStore (p.callAs (connection w) .str "greet" (.str name))
  print ("✓ remote call: " ++ reply)
  let (greeted, last) ← onPool (w.scope owner (reload w id))
  print ("✓ reloaded in partition " ++ toString w.settings.partition.toNat ++ ": greeted=" ++
    toString greeted ++ " last_name=" ++ last.getD "-")
  let report ← onPool ((Pool.shutdown .sorted).mapError nofun)
  printReport report

def space (s : Settings) : Work Space :=
  .ofExcept ((Space.build s [Greeter.service]).mapError .space)

/-- Runs a command; `fresh` is the number of an object that it may make. -/
def Command.run (c : Command) (s : Settings) (fresh : UInt64) : Work Unit :=
  match c with
  | greet name objectId times => do CommandLine.greet (← space s) name objectId times
  | demo greeting name => do CommandLine.demo (← space s) fresh greeting name
  | settings => do
    let text ← .ofExcept (s.text.mapError .settings)
    (Run.modifyState (· ++ text)).onFirst

end CommandLine
end ObjectSpace
