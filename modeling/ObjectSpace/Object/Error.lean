import ObjectSpace.Reference.Error

/-!
# Failures of objects
-/

namespace ObjectSpace

inductive StateError where
  | mismatch (m : Mismatch)
  | codec (e : CodecError)
  | store (e : StoreError)
  | proxy (e : ProxyError)
  | unknownField (classId field : String)
  | unknownAccessor (classId accessor : String)
  | wrongAccess (accessor : String) (wanted : Access)
  | notAReference (field : String) (shape : Shape)

namespace StateError

def category : StateError → Category
  | mismatch _ | unknownField _ _ | unknownAccessor _ _ | wrongAccess _ _ | notAReference _ _ =>
    .validation
  | codec e => e.category
  | store e => e.category
  | proxy e => e.category

def message : StateError → String
  | mismatch m => m.message
  | codec e => e.message
  | store e => e.message
  | proxy e => e.message
  | unknownField classId field => "class " ++ classId ++ " has no field " ++ field
  | unknownAccessor classId accessor => "class " ++ classId ++ " has no accessor " ++ accessor
  | wrongAccess accessor wanted => accessor ++ " is not a " ++ wanted.name ++ " accessor"
  | notAReference field shape => "field " ++ field ++ " holds " ++ shape.label ++ ", not a reference"

def details : StateError → Table String String
  | mismatch m => m.details
  | codec e => e.details
  | proxy e => e.details
  | _ => {}

instance : Reported StateError where
  category := category
  message := message
  details := details

end StateError
end ObjectSpace
