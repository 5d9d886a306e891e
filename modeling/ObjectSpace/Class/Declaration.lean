import ObjectSpace.Shape.Accepts

/-!
# Declarations of classes

A class is declared by its fields, its methods, and accessors that read or write one field each.
`Declaration.fault?` is the first thing that is wrong with a declaration: names are claimed in
order, fields before methods before accessors.
-/

namespace ObjectSpace

structure Field where
  name : String
  index : UInt32
  shape : Shape
  default : Value

/-- A field without a default of its own begins with the zero of its shape, or else with null. -/
def Field.of (name : String) (index : UInt32) (shape : Shape) (default : Option Value) : Field :=
  ⟨name, index, shape, default.getD (shape.zero?.getD .null)⟩

/-- How the body of a method takes its arguments. -/
inductive CallShape where
  | noArguments
  | single
  | singleWithMeta
  | variadic
  deriving DecidableEq

structure Method where
  name : String
  shape : CallShape
  params : List Param
  returns : Shape
  /-- In milliseconds, where the method has a limit of its own. -/
  timeout : Option Nat

/-- The parameter of a method that takes one argument. -/
def Method.single? (m : Method) : Option Param :=
  match m.shape with
  | .single | .singleWithMeta => m.params.head?
  | _ => none

inductive Access where
  | read
  | write
  deriving DecidableEq

structure Accessor where
  name : String
  field : String
  access : Access
  deriving DecidableEq

structure Declaration where
  classId : String
  fields : List Field
  methods : List Method
  accessors : List Accessor

/-- What is wrong with the parameters of a method. -/
inductive SignatureFault where
  | argumentsDeclared
  | notOneParameter
  | duplicateParameter (name : String)
  | invalidDefault (name : String) (shape : Shape)

inductive SchemaError where
  | duplicateName (classId name : String)
  | duplicateIndex (classId : String) (index : UInt32)
  | unknownField (classId accessor field : String)
  | missingDefault (classId field : String)
  | invalidDefault (classId field : String) (shape : Shape)
  | invalidSignature (classId method : String) (fault : SignatureFault)
  | duplicateClass (classId : String)
  | unknownClass (classId : String)

def SignatureFault.message : SignatureFault → String
  | argumentsDeclared => "no-argument method declares parameters"
  | notOneParameter => "single-argument method must declare exactly one parameter"
  | duplicateParameter name => "duplicate parameter " ++ name
  | invalidDefault name shape =>
    "default for " ++ name ++ " does not conform to " ++ shape.label

def SchemaError.message : SchemaError → String
  | duplicateName classId name => "class " ++ classId ++ ": duplicate member name " ++ name
  | duplicateIndex classId index =>
    "class " ++ classId ++ ": state index " ++ toString index.toNat ++ " declared twice"
  | unknownField classId accessor field =>
    "class " ++ classId ++ ": accessor " ++ accessor ++ " bound to unknown field " ++ field
  | missingDefault classId field =>
    "class " ++ classId ++ ": field " ++ field ++ " has no usable default"
  | invalidDefault classId field shape =>
    "class " ++ classId ++ ": default for " ++ field ++ " does not conform to " ++ shape.label
  | invalidSignature classId method fault =>
    "class " ++ classId ++ ": method " ++ method ++ " does not match its call shape: " ++
      fault.message
  | duplicateClass classId => "class already registered: " ++ classId
  | unknownClass classId => "unknown class: " ++ classId

namespace Param

/-- Whether the default, if there is one, has the parameter's shape. -/
def defaultFits (p : Param) : Bool :=
  match p.default with
  | some v => p.shape.accepts v
  | none => true

/-- The first fault of parameters that follow those with the names `seen`. -/
def fault? (seen : List String) : List Param → Option SignatureFault
  | [] => none
  | p :: ps =>
    if seen.contains p.name then some (.duplicateParameter p.name)
    else if p.defaultFits then fault? (p.name :: seen) ps
    else some (.invalidDefault p.name p.shape)

end Param

def Method.fault? (m : Method) : Option SignatureFault :=
  match m.shape with
  | .noArguments => if m.params.isEmpty then none else some .argumentsDeclared
  | .single | .singleWithMeta =>
    if m.params.length = 1 then Param.fault? [] m.params else some .notOneParameter
  | .variadic => Param.fault? [] m.params

namespace Declaration

def fieldFault? (classId : String) (names : List String) (indices : List UInt32) :
    List Field → Option SchemaError
  | [] => none
  | f :: fs =>
    if names.contains f.name then some (.duplicateName classId f.name)
    else if indices.contains f.index then some (.duplicateIndex classId f.index)
    else if f.shape.accepts f.default then
      fieldFault? classId (f.name :: names) (f.index :: indices) fs
    else if f.default.isNull then some (.missingDefault classId f.name)
    else some (.invalidDefault classId f.name f.shape)

def methodFault? (classId : String) (names : List String) : List Method → Option SchemaError
  | [] => none
  | m :: ms =>
    if names.contains m.name then some (.duplicateName classId m.name)
    else
      match m.fault? with
      | some fault => some (.invalidSignature classId m.name fault)
      | none => methodFault? classId (m.name :: names) ms

def accessorFault? (classId : String) (fields names : List String) :
    List Accessor → Option SchemaError
  | [] => none
  | a :: as =>
    if names.contains a.name then some (.duplicateName classId a.name)
    else if fields.contains a.field then accessorFault? classId fields (a.name :: names) as
    else some (.unknownField classId a.name a.field)

def fieldNames (d : Declaration) : List String := d.fields.map Field.name
def methodNames (d : Declaration) : List String := d.methods.map Method.name

def fault? (d : Declaration) : Option SchemaError :=
  fieldFault? d.classId [] [] d.fields <|>
    methodFault? d.classId d.fieldNames d.methods <|>
    accessorFault? d.classId d.fieldNames (d.methodNames ++ d.fieldNames) d.accessors

end Declaration
end ObjectSpace
