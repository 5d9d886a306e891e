import ObjectSpace.Instances

/-!
# Integers as text

A literal is a run of ASCII digits behind at most one sign. Reading has no range of its own; the
bounded types refuse what does not fit them.
-/

namespace ObjectSpace
namespace Integer

/-- The number a run of digits stands for, read on from `n`. -/
def digitsOnto (n : Nat) : List Char → Option Nat
  | [] => some n
  | c :: cs => if c.isDigit then digitsOnto (10 * n + (c.toNat - 48)) cs else none

/-- One digit or more. -/
def natOfDigits? : List Char → Option Nat
  | [] => none
  | cs => digitsOnto 0 cs

def ofChars? : List Char → Option Int
  | '-' :: cs => (natOfDigits? cs).map fun n => -(n : Int)
  | '+' :: cs => (natOfDigits? cs).map Int.ofNat
  | cs => (natOfDigits? cs).map Int.ofNat

/-- Unsigned literals may carry `+` but never `-`. -/
def unsignedOfChars? : List Char → Option Nat
  | '+' :: cs => natOfDigits? cs
  | cs => natOfDigits? cs

def text (n : Int) : String := toString n

end Integer

def minInt64 : Int := -2 ^ 63
def maxInt64 : Int := 2 ^ 63 - 1

/-- The 64-bit integer equal to `n`, if there is one. -/
def int64? (n : Int) : Option Int64 :=
  if minInt64 ≤ n ∧ n ≤ maxInt64 then some (Int64.ofInt n) else none

def uint32? (n : Int) : Option UInt32 :=
  if 0 ≤ n ∧ n < 2 ^ 32 then some (UInt32.ofNat n.toNat) else none

def uint64? (n : Int) : Option UInt64 :=
  if 0 ≤ n ∧ n < 2 ^ 64 then some (UInt64.ofNat n.toNat) else none

end ObjectSpace
