/-!
# Text out of arbitrary bytes

Bytes that are not UTF-8 are still shown: each longest run that starts a character and cannot be
continued to one becomes a single replacement character.
-/

namespace ObjectSpace
namespace Lossy

def replacement : Char := '\ufffd'

def within (low high : Nat) (b : UInt8) : Bool := low ≤ b.toNat && b.toNat ≤ high

/-- A byte that continues a character. -/
def isTail (b : UInt8) : Bool := within 0x80 0xBF b

/-- Whether `b` may follow the lead byte of a character of three bytes. -/
def secondOfThree (lead b : UInt8) : Bool :=
  if lead == 0xE0 then within 0xA0 0xBF b
  else if lead == 0xED then within 0x80 0x9F b
  else isTail b

def secondOfFour (lead b : UInt8) : Bool :=
  if lead == 0xF0 then within 0x90 0xBF b
  else if lead == 0xF4 then within 0x80 0x8F b
  else isTail b

/-- The six payload bits of a continuing byte, behind `n`. -/
def join (n : Nat) (b : UInt8) : Nat := 64 * n + (b.toNat - 0x80)

def decode : List UInt8 → List Char
  | [] => []
  | b :: rest =>
    if within 0 0x7F b then Char.ofNat b.toNat :: decode rest
    else if within 0xC2 0xDF b then
      match rest with
      | b₁ :: rest₁ =>
        if isTail b₁ then Char.ofNat (join (b.toNat - 0xC0) b₁) :: decode rest₁
        else replacement :: decode (b₁ :: rest₁)
      | [] => [replacement]
    else if within 0xE0 0xEF b then
      match rest with
      | b₁ :: b₂ :: rest₂ =>
        if secondOfThree b b₁ then
          if isTail b₂ then Char.ofNat (join (join (b.toNat - 0xE0) b₁) b₂) :: decode rest₂
          else replacement :: decode (b₂ :: rest₂)
        else replacement :: decode (b₁ :: b₂ :: rest₂)
      | [b₁] => if secondOfThree b b₁ then [replacement] else replacement :: decode [b₁]
      | [] => [replacement]
    else if within 0xF0 0xF4 b then
      match rest with
      | b₁ :: rest₁ =>
        if secondOfFour b b₁ then
          match rest₁ with
          | b₂ :: rest₂ =>
            if isTail b₂ then
              match rest₂ with
              | b₃ :: rest₃ =>
                if isTail b₃ then
                  Char.ofNat (join (join (join (b.toNat - 0xF0) b₁) b₂) b₃) :: decode rest₃
                else replacement :: decode (b₃ :: rest₃)
              | [] => [replacement]
            else replacement :: decode (b₂ :: rest₂)
          | [] => [replacement]
        else replacement :: decode (b₁ :: rest₁)
      | [] => [replacement]
    else replacement :: decode rest
  termination_by bytes => bytes.length

/-- The text of bytes, whatever they are. -/
def text (bytes : ByteArray) : String := String.ofList (decode bytes.data.toList)

end Lossy
end ObjectSpace
