import ObjectSpace.Object.Error

/-!
# Failures of methods

A method body fails with an error of the application, which may carry on the failure of something
the body did. The other failures are those of the call around the body.
-/

namespace ObjectSpace

structure ApplicationError where
  category : Category
  message : String
  details : Table String String
  deriving DecidableEq

namespace ApplicationError

def ofMessage (message : String) : ApplicationError := ⟨.application, message, {}⟩

/-- The same failure in the body's own name. -/
def ofReported [Reported ε] (e : ε) : ApplicationError :=
  ⟨Reported.category e, Reported.message e, Reported.details e⟩

instance : Reported ApplicationError where
  category := category
  message := message
  details := details

end ApplicationError

inductive InvokeError where
  | codec (e : CodecError)
  | schema (e : SchemaError)
  | application (e : ApplicationError)
  | invalidReturn (method : String) (source : CodecError)
  | unknownMethod (classId method : String)
  | unknownService (classId : String)
  | duplicateService (classId : String)

namespace InvokeError

def category : InvokeError → Category
  | schema _ | unknownMethod _ _ | unknownService _ | duplicateService _ => .validation
  | codec e => e.category
  | application e => e.category
  | invalidReturn _ _ => .serialization

def message : InvokeError → String
  | codec e => e.message
  | schema e => e.message
  | application e => e.message
  | invalidReturn method source => method ++ " returned an invalid value: " ++ source.message
  | unknownMethod classId method => "class " ++ classId ++ " has no method " ++ method
  | unknownService classId => "no service registered for class " ++ classId
  | duplicateService classId => "service " ++ classId ++ " registered twice"

def details : InvokeError → Table String String
  | codec e => e.details
  | application e => e.details
  | invalidReturn method _ => Table.empty.insert "method" method
  | _ => {}

instance : Reported InvokeError where
  category := category
  message := message
  details := details

end InvokeError
end ObjectSpace
