import ObjectSpace.Class.Declaration
import ObjectSpace.Report.Basic

/-!
# Classes

A class is a declaration without a fault. Its fields are listed by their indices, its methods and
accessors by their names. A registry knows classes by their ids.
-/

namespace ObjectSpace

instance : Reported SchemaError where
  category _ := .validation
  message := SchemaError.message

structure Class where
  declaration : Declaration
  faultless : declaration.fault? = none

def Declaration.build (d : Declaration) : Except SchemaError Class :=
  match h : d.fault? with
  | none => .ok ⟨d, h⟩
  | some e => .error e

namespace Class

def id (c : Class) : String := c.declaration.classId

def fields (c : Class) : List Field :=
  Ordered.sort (fun f g => compare f.index g.index) c.declaration.fields

def field? (c : Class) (name : String) : Option Field := c.fields.find? (·.name == name)

def fieldAt? (c : Class) (index : UInt32) : Option Field :=
  Ordered.search (fun f => compare f.index index) c.fields

def methods (c : Class) : Table String Method :=
  Table.ofList (c.declaration.methods.map fun m => (m.name, m))

def method? (c : Class) (name : String) : Option Method := c.methods.get? name

def accessors (c : Class) : Table String Accessor :=
  Table.ofList (c.declaration.accessors.map fun a => (a.name, a))

def accessor? (c : Class) (name : String) : Option Accessor := c.accessors.get? name

end Class

structure Registry where
  classes : Table String Class

namespace Registry

def empty : Registry := ⟨{}⟩

def register (r : Registry) (c : Class) : Except SchemaError Registry :=
  if r.classes.contains c.id then .error (.duplicateClass c.id)
  else .ok ⟨r.classes.insert c.id c⟩

def find (r : Registry) (classId : String) : Except SchemaError Class :=
  match r.classes.get? classId with
  | some c => .ok c
  | none => .error (.unknownClass classId)

end Registry
end ObjectSpace
