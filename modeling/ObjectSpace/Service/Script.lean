import ObjectSpace.Service.Operation

/-!
# Scripted bodies

A small language for method bodies. A script works on one register, which is null at first and the
result at the end.
-/

namespace ObjectSpace

inductive Statement where
  | const (v : Value)
  /-- The argument with this name, or null. -/
  | arg (name : String)
  | argAt (i : Nat)
  | argAs (name : String) (n : Native)
  /-- Names and values, their number, whether there are none, and the values once more. -/
  | args
  | option (key : String)
  /-- The method, the target and the options of the call. -/
  | callMeta
  | get (field : String)
  | getAs (field : String) (n : Native)
  | set (field : String)
  | read (accessor : String)
  | write (accessor : String)
  /-- Adds the number in a field to the register. -/
  | add (field : String)
  /-- Fails if the register is above the bound. -/
  | limit (bound : Int) (message : String)
  | fail (message : String) (details : Table String String)
  | setRef (field : String)
  | getRef (field : String)
  | clearRef (field : String)
  | dirty
  | flush
  /-- Is held up until the caller has gone. -/
  | hang
  | crash

namespace Statement

def describeArgs (a : Arguments) : Value :=
  .list (a.entries.map (fun (name, v) => .tuple [.str name, v]) ++
    [.int (Int64.ofNat a.values.length), .bool a.values.isEmpty] ++ a.values)

def describeCall (c : CallMeta) : Value :=
  .ofMembers [("method", .str c.method), ("target", .str c.target.text),
    ("options", .ofMembers (c.options.entries.map fun (k, v) => (k, .str v)))]

def asInt : Value → Int
  | .int n => n.toInt
  | _ => 0

def sum (a b : Int) : Action Value :=
  match int64? (a + b) with
  | some n => pure (.int n)
  | none => .fail (.ofMessage "overflow")

/-- Fails with the register in the details. -/
def aboveLimit (message : String) (n : Int) : ApplicationError :=
  { ApplicationError.ofMessage message with details := Table.empty.insert "value" (Integer.text n) }

def native (n : Native) (v : Value) : Action Value := Action.ofExcept (n.normalize v)

/-- What the register is after the statement. -/
def run (a : Arguments) (c : CallMeta) (r : Value) : Statement → Action Value
  | const v => pure v
  | arg name => pure ((a.get? name).getD .null)
  | argAt i => pure ((a.at? i).getD .null)
  | argAs name n => Action.ofExcept ((a.getAs n name).map n.toValue)
  | args => pure (describeArgs a)
  | option key => pure (((c.options.get? key).map Value.str).getD .null)
  | callMeta => pure (describeCall c)
  | get field => Action.ask (.get field)
  | getAs field n => do native n (← Action.ask (.get field))
  | set field => Action.ask (.set field r)
  | read accessor => Action.ask (.read accessor)
  | write accessor => do
    let _ ← Action.ask (.write accessor r)
    return r
  | add field => do
    let v ← Action.ask (.get field)
    let n ← Action.ofExcept ((Native.int .i64).ofValue v)
    sum n.val.toInt (asInt r)
  | limit bound message =>
    match r with
    | .int n => if bound < n.toInt then .fail (aboveLimit message n.toInt) else pure r
    | _ => pure r
  | fail message details => .fail { ApplicationError.ofMessage message with details := details }
  | setRef field => do return .ref (← Action.ask (.setReference field (.value r)))
  | getRef field => do
    match ← Action.ask (.reference field) with
    | some p => return .ref p.identity
    | none => return .null
  | clearRef field => do
    Action.ask (.clearReference field)
    return r
  | dirty => do return .list ((← Action.ask .dirtyFields).map .str)
  | flush => do return .int (Int64.ofNat (← Action.ask .flush))
  | hang => .pause (.done r)
  | crash => .crash

end Statement

abbrev Script : Type := List Statement

namespace Script

def run (a : Arguments) (c : CallMeta) : Script → Value → Action Value
  | [], r => pure r
  | s :: ss, r => do run a c ss (← s.run a c r)

def body (s : Script) : Body := fun a c => s.run a c .null

/-- The body of a method whose only argument is taken as a native value. -/
def nativeBody (s : Script) (param : String) (n : Native) : Body :=
  Operation.single n fun x c => s.run ⟨[param], [n.toValue x]⟩ c .null

/-- A script as the body of a method. Only methods with one argument take it as a native value,
and a method without arguments sees none. -/
def operation (m : Method) (n : Native) (s : Script) : Operation :=
  match m.shape with
  | .noArguments => ⟨m, fun _ c => s.run ⟨[], []⟩ c .null⟩
  | .single | .singleWithMeta => ⟨m, s.nativeBody ((m.single?.map Member.name).getD "") n⟩
  | .variadic => ⟨m, s.body⟩

end Script
end ObjectSpace
