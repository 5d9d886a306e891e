import ObjectSpace.Mismatch
import ObjectSpace.Value.Basic

/-!
# Places inside values

The path to the value under a key, and the walk over the items of a sequence that tells each its
position.
-/

namespace ObjectSpace

namespace Path

/-- The value under a key of the map at `path`. -/
def key (path : String) : Value → String
  | .str s => path ++ "[" ++ Text.quoted s ++ "]"
  | .int n => path ++ "[" ++ toString n.toInt ++ "]"
  | k => path ++ "[<" ++ k.kind ++ ">]"

end Path

/-- Does `f` on all items and their positions, the first at `i`, until one fails. -/
def eachAt (f : Nat → α → Except ε β) (i : Nat) : List α → Except ε (List β)
  | [] => .ok []
  | a :: as => do
    let b ← f i a
    return b :: (← eachAt f (i + 1) as)

end ObjectSpace
