import ObjectSpace.Class.Declaration
import ObjectSpace.Codec.Arguments

/-!
# Calls with one argument value

A caller hands every method one value: null for no argument, and for a variadic method the list of
the arguments by position. Both sides of a call go by the declared method.
-/

namespace ObjectSpace
namespace Method

/-- The arguments by position that one value stands for. -/
def positionalOf : Value → List Value
  | .null => []
  | .list items => items
  | .tuple items => items
  | v => [v]

def encodeCall (m : Method) (arg : Value) : Except CodecError ByteArray :=
  match m.shape with
  | .noArguments => .ok .empty
  | .single | .singleWithMeta =>
    match m.single? with
    | some p => Param.encode p arg
    | none => .ok .empty
  | .variadic => Arguments.encode m.params (positionalOf arg) {}

/-- One value for each parameter; a method without arguments ignores the payload. -/
def decodeCall (m : Method) (payload : ByteArray) : Except CodecError (List Value) :=
  match m.shape with
  | .noArguments => .ok []
  | .single | .singleWithMeta =>
    match m.single? with
    | some p => (Param.decode p payload).map fun v => [v]
    | none => .ok []
  | .variadic => Arguments.decode m.params payload

end Method
end ObjectSpace
