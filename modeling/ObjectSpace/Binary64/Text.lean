import ObjectSpace.Binary64.Shortest
import ObjectSpace.Text.Integer

/-!
# Floating-point numbers as text

A layout says how the shortest decimal of a number is written: which exponents are written
positionally, whether whole numbers carry a fraction, and where ties between two decimals go.
-/

namespace ObjectSpace
namespace Binary64

structure Layout where
  /-- The bounds of the exponents of the first digit that are written positionally, the upper one
  excluded; without bounds all are. -/
  positional : Option (Int × Int)
  /-- Written behind a whole number in positional notation. -/
  wholeEnd : String
  tie : Tie

/-- Never an exponent, and no fraction that is zero. -/
def Layout.plain : Layout := ⟨none, "", .up⟩

def Layout.isPositional (l : Layout) (e : Int) : Bool :=
  match l.positional with
  | none => true
  | some (low, high) => low ≤ e && e < high

/-- Digits with the point behind that of exponent zero; the first digit has exponent `e`. -/
def positionalText (l : Layout) (ds : List Char) (e : Int) : String :=
  if e < 0 then "0." ++ String.ofList (List.replicate (-e - 1).toNat '0' ++ ds)
  else if ds.length ≤ e.toNat + 1 then
    String.ofList (ds ++ List.replicate (e.toNat + 1 - ds.length) '0') ++ l.wholeEnd
  else String.ofList (ds.take (e.toNat + 1)) ++ "." ++ String.ofList (ds.drop (e.toNat + 1))

/-- Digits with the point behind the first, and the exponent with its sign. -/
def exponentText (ds : List Char) (e : Int) : String :=
  let fraction := if ds.length ≤ 1 then "" else "." ++ String.ofList (ds.drop 1)
  let sign := if e < 0 then "-" else "+"
  String.ofList (ds.take 1) ++ fraction ++ "e" ++ sign ++ toString e.natAbs

def text (l : Layout) (x : Binary64) : String :=
  if x.isNaN then "NaN"
  else
    let sign := if x.isNegative then "-" else ""
    if x.isFinite then
      let (n, k) := shortest l.tie x.magnitude
      let ds := Nat.toDigits 10 n
      let e := k + ds.length - 1
      sign ++ if l.isPositional e then positionalText l ds e else exponentText ds e
    else sign ++ "inf"

/-- Writes as many digits as the number has before the point, never an exponent. -/
def plainText (x : Binary64) : String := x.text .plain

namespace Decimal

/-- The exponent part of a literal: nothing, or a mark, at most one sign, and digits. -/
def exponentOfChars? : List Char → Option Int
  | [] => some 0
  | c :: cs => if c == 'e' || c == 'E' then Integer.ofChars? cs else none

/-- Digits with at most one point among them, one digit at least, and an exponent. -/
def unsignedOfChars? (cs : List Char) : Option (Nat × Int) := do
  let whole := cs.takeWhile Char.isDigit
  let rest := cs.dropWhile Char.isDigit
  let (fraction, rest) := match rest with
    | '.' :: tail => (tail.takeWhile Char.isDigit, tail.dropWhile Char.isDigit)
    | _ => ([], rest)
  let digits ← Integer.natOfDigits? (whole ++ fraction)
  let exponent ← exponentOfChars? rest
  some (digits, exponent - fraction.length)

def ofChars? (cs : List Char) : Option Decimal :=
  match cs with
  | '-' :: rest => (unsignedOfChars? rest).map fun (n, k) => ⟨true, n, k⟩
  | '+' :: rest => (unsignedOfChars? rest).map fun (n, k) => ⟨false, n, k⟩
  | _ => (unsignedOfChars? cs).map fun (n, k) => ⟨false, n, k⟩

end Decimal

/-- The number nearest to a decimal literal; one too large reads as infinity. -/
def ofChars? (cs : List Char) : Option Binary64 := (Decimal.ofChars? cs).map ofDecimal

end Binary64
end ObjectSpace
