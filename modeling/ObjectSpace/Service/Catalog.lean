import ObjectSpace.Service.Operation

/-!
# Services and catalogs

A service is a class together with the bodies of its methods. A catalog holds services of different
classes.
-/

namespace ObjectSpace

structure ServiceDeclaration where
  classId : String
  fields : List Field
  operations : List Operation
  accessors : List Accessor

def ServiceDeclaration.declaration (d : ServiceDeclaration) : Declaration :=
  ⟨d.classId, d.fields, d.operations.map Operation.method, d.accessors⟩

structure Service where
  plan : ServiceDeclaration
  faultless : plan.declaration.fault? = none

def ServiceDeclaration.build (d : ServiceDeclaration) : Except InvokeError Service :=
  match h : d.declaration.fault? with
  | none => .ok ⟨d, h⟩
  | some e => .error (.schema e)

namespace Service

def id (s : Service) : String := s.plan.classId

def schema (s : Service) : Class := ⟨s.plan.declaration, s.faultless⟩

def operation? (s : Service) (method : String) : Option Operation :=
  s.plan.operations.find? (·.method.name == method)

end Service

structure Catalog where
  services : Table String Service

namespace Catalog

def empty : Catalog := ⟨{}⟩

def add (c : Catalog) (s : Service) : Except InvokeError Catalog :=
  if c.services.contains s.id then .error (.duplicateService s.id)
  else .ok ⟨c.services.insert s.id s⟩

def ofServices (ss : List Service) : Except InvokeError Catalog := ss.foldlM add empty

def size (c : Catalog) : Nat := c.services.size

def registry (c : Catalog) : Registry := ⟨c.services.mapValues Service.schema⟩

def service (c : Catalog) (classId : String) : Except InvokeError Service :=
  match c.services.get? classId with
  | some s => .ok s
  | none => .error (.unknownService classId)

def operation (c : Catalog) (classId method : String) : Except InvokeError Operation := do
  let s ← c.service classId
  match s.operation? method with
  | some op => return op
  | none => .error (.unknownMethod classId method)

end Catalog
end ObjectSpace
