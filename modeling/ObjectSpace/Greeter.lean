import ObjectSpace.Service.Catalog
import ObjectSpace.Text.Blank

/-!
# The greeter

A service that greets by name. Each greeter has a greeting of its own, counts whom it has greeted and
remembers the last one.
-/

namespace ObjectSpace
namespace Greeter

def classId : String := "Greeter"

def fields : List Field :=
  [.of "greeting" 0 .str (some (.str "Hello")), .of "greeted" 1 .int (some (.int 0)),
    .of "last_name" 2 (.optional .str) none]

/-- The value of a field as a native one. -/
def field (n : Native) (name : String) : Action n.Carrier := do
  Action.ofExcept (n.ofValue (← Action.ask (.get name)))

def greet (name : String) : Action Value := do
  if (Text.trim name).isEmpty then .fail (.ofMessage "name must not be empty")
  else do
    let greeting ← field .str "greeting"
    let greeted ← field (.int .i64) "greeted"
    let _ ← Action.ask (.set "greeted" (.int (greeted.val + 1)))
    let _ ← Action.ask (.set "last_name" (.str name))
    return .str (greeting ++ ", " ++ name ++ "!")

def stats : Action Value := do return .int (← field (.int .i64) "greeted").val

def operations : List Operation :=
  [⟨⟨"greet", .single, [⟨"name", .str, none⟩], .str, none⟩, Operation.single .str fun name _ => greet name⟩,
    ⟨⟨"stats", .noArguments, [], .int, none⟩, fun _ _ => stats⟩]

def accessors : List Accessor :=
  [⟨"get_greeting", "greeting", .read⟩, ⟨"set_greeting", "greeting", .write⟩]

def plan : ServiceDeclaration := ⟨classId, fields, operations, accessors⟩

def service : Service := ⟨plan, by rfl⟩

end Greeter
end ObjectSpace
