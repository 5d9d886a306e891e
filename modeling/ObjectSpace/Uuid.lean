import ObjectSpace.Text.Hex

/-!
# Universally unique identifiers

A number of 128 bits, written as 32 hexadecimal digits in groups of 8, 4, 4, 4 and 12. Reading
also takes the digits without hyphens, and the groups in braces or behind a URN prefix.
-/

namespace ObjectSpace

structure Uuid where
  value : BitVec 128
  deriving DecidableEq, Inhabited

namespace Uuid

def compare (a b : Uuid) : Ordering := Ord.compare a.value.toNat b.value.toNat

def groups : List Nat := [8, 4, 4, 4, 12]

/-- The last `count` hexadecimal digits of `n`. -/
def hexDigits : Nat → Nat → List Char
  | 0, _ => []
  | count + 1, n => hexDigits count (n / 16) ++ [Hex.digit (n % 16)]

/-- Cuts digits into groups. -/
def chunks : List Nat → List Char → List (List Char)
  | [], _ => []
  | size :: sizes, cs => cs.take size :: chunks sizes (cs.drop size)

def text (u : Uuid) : String :=
  "-".intercalate ((chunks groups (hexDigits 32 u.value.toNat)).map String.ofList)

def hexValue? (c : Char) : Option Nat :=
  if c.toNat < 128 then Hex.value? (UInt8.ofNat c.toNat) else none

def ofDigits? (cs : List Char) : Option Uuid := do
  let ds ← cs.mapM hexValue?
  some ⟨BitVec.ofNat 128 (ds.foldl (fun n d => 16 * n + d) 0)⟩

/-- The digits of groups that are separated by hyphens and end with the text. -/
def ungroup? : List Nat → List Char → Option (List Char)
  | [], cs => if cs.isEmpty then some [] else none
  | [size], cs => if cs.length = size then some cs else none
  | size :: sizes, cs =>
    match cs.drop size with
    | '-' :: rest => (ungroup? sizes rest).map (cs.take size ++ ·)
    | _ => none

def urnMark : List Char := "urn:uuid:".toList

def ofText? (s : String) : Option Uuid :=
  let cs := s.toList
  if cs.length = 32 then ofDigits? cs
  else
    let grouped :=
      if cs.length = 38 && cs.head? == some '{' && cs.getLast? == some '}' then
        (cs.drop 1).dropLast
      else if (cs.take 9).map Char.toLower = urnMark then cs.drop 9
      else cs
    ungroup? groups grouped >>= ofDigits?

/-- Why a text is refused that is not so written. -/
def refusal : String := "no UUID is so written"

end Uuid
end ObjectSpace
