import ObjectSpace.Text.Quoted

/-!
# Bytes as hexadecimal text

Two lower-case digits a byte, high half first. Reading takes digits of either case and names the
first byte of the text that is not one.
-/

namespace ObjectSpace
namespace Hex

def digit (n : Nat) : Char := Char.ofNat (if n < 10 then 48 + n else 87 + n)

def pair (b : UInt8) : List Char := [digit (b.toNat / 16), digit (b.toNat % 16)]

def encode (bytes : ByteArray) : String := String.ofList (bytes.data.toList.flatMap pair)

inductive Fault where
  | oddLength
  | badDigit (byte : UInt8) (position : Nat)
  deriving DecidableEq

/-- A byte that is no digit is shown as the character of the same number. -/
def Fault.message : Fault → String
  | .oddLength => "Odd number of digits"
  | .badDigit byte position =>
    s!"Invalid character {Text.quotedChar (Char.ofNat byte.toNat)} at position {position}"

def value? (b : UInt8) : Option Nat :=
  let n := b.toNat
  if 48 ≤ n && n ≤ 57 then some (n - 48)
  else if 97 ≤ n && n ≤ 102 then some (n - 87)
  else if 65 ≤ n && n ≤ 70 then some (n - 55)
  else none

/-- Reads digits two by two; `position` is that of the first. -/
def pairs (position : Nat) : List UInt8 → Except Fault (List UInt8)
  | high :: low :: rest =>
    match value? high, value? low with
    | some h, some l => (pairs (position + 2) rest).map (UInt8.ofNat (16 * h + l) :: ·)
    | none, _ => .error (.badDigit high position)
    | _, none => .error (.badDigit low (position + 1))
  | _ => .ok []

def decode (text : String) : Except Fault ByteArray :=
  let bytes := text.toUTF8.data.toList
  if bytes.length % 2 = 0 then (pairs 0 bytes).map fun bs => ⟨bs.toArray⟩
  else .error .oddLength

end Hex
end ObjectSpace
