import ObjectSpace.Json.Raw

/-!
# Documents with fixed members

A record is written as an object or as an array of its members in order. Members that the reader
does not know are passed over, whatever they hold; one it knows must not be written twice.
-/

namespace ObjectSpace
namespace Json
namespace Raw

/-- What a known key must not be written twice for. -/
def unique? (name : String) (members : List (String × Raw)) : Option (Option Raw) :=
  match members.filter (·.1 == name) with
  | [] => some none
  | [(_, r)] => some (some r)
  | _ => none

/-- The members with these names, in their order; a missing one is `none`. -/
def fields? (names : List String) : Raw → Option (List (Option Raw))
  | .object members => do
    let members ← members.mapM fun (key, r) => (unescape key).map fun cs => (String.ofList cs, r)
    names.mapM (unique? · members)
  | .array items =>
    if items.length ≤ names.length then
      some (items.map some ++ List.replicate (names.length - items.length) none)
    else none
  | _ => none

/-- A whole number below `2 ^ 8`. -/
def byte? : Raw → Option UInt8
  | .number raw =>
    match number? raw with
    | some (.int n) => if 0 ≤ n && n < 256 then some (UInt8.ofNat n.toNat) else none
    | _ => none
  | _ => none

def bytes? : Raw → Option ByteArray
  | .array items => (items.mapM byte?).map fun bs => ⟨bs.toArray⟩
  | _ => none

/-- Strings under string keys; of several with one key the last wins. -/
def strings? : Raw → Option (Table String String)
  | .object members =>
    (members.mapM fun (key, r) => do some (String.ofList (← unescape key), ← string? r)).map
      Table.ofList
  | _ => none

end Raw
end Json
end ObjectSpace
