import ObjectSpace.Binary64.Text
import ObjectSpace.Instant.Calendar
import ObjectSpace.Uuid

/-!
# Scalars of a settings file

Settings are switched by flags and numbers. Values of other kinds may stand in a file too, and it only
matters that they are well-formed. Every reader here takes text from its front and returns the rest.
-/

namespace ObjectSpace
namespace Toml

inductive Item where
  | flag (b : Bool)
  | number (n : Int)
  | other
  deriving DecidableEq

/-! ## Strings -/

/-- Control characters other than the tab stand in no string and no comment. -/
def isControl (c : Char) : Bool := (c.toNat < 0x20 && c != '\t') || c.toNat == 0x7F

/-- The scalar value with these hexadecimal digits. -/
def scalar? (digits : List Char) : Option Char := do
  let ns ← digits.mapM Uuid.hexValue?
  let n := ns.foldl (fun n d => 16 * n + d) 0
  if n.isValidChar then some (Char.ofNat n) else none

def escaped? : Char → Option Char
  | 'b' => some '\x08'
  | 't' => some '\t'
  | 'n' => some '\n'
  | 'f' => some '\x0c'
  | 'r' => some '\r'
  | '"' => some '"'
  | '\\' => some '\\'
  | _ => none

/-- Puts a character in front of the text that was read. -/
def before (c : Char) (r : List Char × List Char) : List Char × List Char := (c :: r.1, r.2)

/-- The text of a string up to the quote that ends it. -/
def basicString : List Char → Option (List Char × List Char)
  | [] => none
  | '"' :: rest => some ([], rest)
  | '\\' :: 'u' :: a :: b :: c :: d :: rest => do
    some (before (← scalar? [a, b, c, d]) (← basicString rest))
  | '\\' :: 'U' :: a :: b :: c :: d :: e :: f :: g :: h :: rest => do
    some (before (← scalar? [a, b, c, d, e, f, g, h]) (← basicString rest))
  | '\\' :: c :: rest => do some (before (← escaped? c) (← basicString rest))
  | c :: rest => if isControl c then none else (basicString rest).map (before c)

/-- A string without escapes. -/
def literalString : List Char → Option (List Char × List Char)
  | [] => none
  | '\'' :: rest => some ([], rest)
  | c :: rest => if isControl c then none else (literalString rest).map (before c)

/-- The rest behind a string of several lines, which ends with three quotes; up to two more may stand
before them. A backslash at the end of a line is an escape too. -/
def multilineEnd (quote : Char) (escapes : Bool) : List Char → Option (List Char)
  | [] => none
  | '\\' :: c :: rest =>
    if !escapes then multilineEnd quote escapes (c :: rest)
    else if c == 'u' || c == 'U' then
      let width := if c == 'u' then 4 else 8
      match scalar? (rest.take width) with
      | some _ => if width ≤ rest.length then multilineEnd quote escapes rest else none
      | none => none
    else if (escaped? c).isSome then multilineEnd quote escapes rest
    else
      match (c :: rest).dropWhile (fun x => x == ' ' || x == '\t') with
      | '\n' :: _ | '\r' :: '\n' :: _ => multilineEnd quote escapes rest
      | _ => none
  | c :: rest =>
    if c == quote && rest.take 2 == [quote, quote] then
      some (if rest.take 4 == List.replicate 4 quote then rest.drop 4
        else if rest.take 3 == List.replicate 3 quote then rest.drop 3 else rest.drop 2)
    else if c == '\r' then
      match rest with
      | '\n' :: _ => multilineEnd quote escapes rest
      | _ => none
    else if isControl c && c != '\n' then none
    else multilineEnd quote escapes rest

/-! ## Numbers -/

/-- Digits without the single underscores that may stand between them. -/
def ungroup? (ok : Char → Bool) : List Char → Option (List Char)
  | [] => none
  | [c] => if ok c then some [c] else none
  | c :: '_' :: rest => if ok c then (ungroup? ok rest).map (c :: ·) else none
  | c :: rest => if ok c then (ungroup? ok rest).map (c :: ·) else none

/-- Decimal digits; only zero itself begins with one. -/
def decimal? (cs : List Char) : Option (List Char) := do
  let ds ← ungroup? Char.isDigit cs
  if ds.length ≠ 1 && ds.head? == some '0' then none else some ds

def radixValue? (base : Nat) (cs : List Char) : Option Int := do
  let digit (c : Char) : Option Nat := (Uuid.hexValue? c).filter (· < base)
  let ds ← ungroup? (fun c => (digit c).isSome) cs
  some ((ds.filterMap digit).foldl (fun n d => base * n + d) 0 : Nat)

/-- A number that fits 64 bits with sign. -/
def integer? (cs : List Char) : Option Int := do
  let n ← match cs with
    | '0' :: 'x' :: ds => radixValue? 16 ds
    | '0' :: 'o' :: ds => radixValue? 8 ds
    | '0' :: 'b' :: ds => radixValue? 2 ds
    | '-' :: ds => (← decimal? ds) |> Integer.natOfDigits? |>.map fun n => -(n : Int)
    | '+' :: ds => (← decimal? ds) |> Integer.natOfDigits? |>.map Int.ofNat
    | ds => (← decimal? ds) |> Integer.natOfDigits? |>.map Int.ofNat
  if minInt64 ≤ n ∧ n ≤ maxInt64 then some n else none

def isGrouped (c : Char) : Bool := c.isDigit || c == '_'

/-- An exponent behind its mark: at most one sign, and digits that may begin with zeros. -/
def isExponent : List Char → Bool
  | c :: cs =>
    (c == 'e' || c == 'E') &&
      (ungroup? Char.isDigit (match cs with
        | '+' :: ds | '-' :: ds => ds
        | ds => ds)).isSome
  | [] => false

/-- Whether a number without sign has a fraction or an exponent. -/
def isFractional (cs : List Char) : Bool :=
  (decimal? (cs.takeWhile isGrouped)).isSome &&
    match cs.dropWhile isGrouped with
    | '.' :: rest =>
      (ungroup? Char.isDigit (rest.takeWhile isGrouped)).isSome &&
        ((rest.dropWhile isGrouped).isEmpty || isExponent (rest.dropWhile isGrouped))
    | rest => isExponent rest

/-- A number with a fraction or an exponent, or one of the names of what is not finite. A number is
refused if it is too large; one that is too far below zero stands for negative infinity. -/
def isFloat (cs : List Char) : Bool :=
  let body := match cs with
    | '+' :: rest | '-' :: rest => rest
    | _ => cs
  body == "inf".toList || body == "nan".toList ||
    (isFractional body &&
      match Binary64.ofChars? (cs.filter (· != '_')) with
      | some x => x.isFinite || x.isNegative
      | none => false)

/-! ## Dates and times -/

def twoDigits? (a b : Char) : Option Nat := Integer.natOfDigits? [a, b]

def isDate : List Char → Bool
  | [a, b, c, d, '-', e, f, '-', g, h] =>
    match Integer.natOfDigits? [a, b, c, d], twoDigits? e f, twoDigits? g h with
    | some y, some m, some d => (⟨y, m, d⟩ : Date).isValid
    | _, _, _ => false
  | _ => false

/-- Both below their bounds. -/
def isClock (hour minute : Option Nat) : Bool :=
  match hour, minute with
  | some h, some m => h < 24 && m < 60
  | _, _ => false

def isOffset : List Char → Bool
  | [] => true
  | [c] => c == 'Z' || c == 'z'
  | [s, a, b, ':', c, d] => (s == '+' || s == '-') && isClock (twoDigits? a b) (twoDigits? c d)
  | _ => false

/-- A time of day, with seconds and perhaps a fraction of them; the offset must satisfy `tail`. -/
def isTime (tail : List Char → Bool) : List Char → Bool
  | a :: b :: ':' :: c :: d :: ':' :: e :: f :: rest =>
    isClock (twoDigits? a b) (twoDigits? c d) &&
      (match twoDigits? e f with
        | some s => s ≤ 60
        | none => false) &&
      match rest with
      | '.' :: x :: rest => x.isDigit && tail (rest.dropWhile Char.isDigit)
      | _ => tail rest
  | _ => false

def isDateTime (cs : List Char) : Bool :=
  isTime List.isEmpty cs ||
    (isDate (cs.take 10) &&
      match cs.drop 10 with
      | [] => true
      | c :: rest => (c == 'T' || c == 't' || c == ' ') && isTime isOffset rest)

/-! ## Words -/

def isWordChar (c : Char) : Bool :=
  c.isAlphanum || c == '+' || c == '-' || c == '_' || c == '.' || c == ':'

/-- A date and a time may have a space between them. -/
def word (cs : List Char) : List Char × List Char :=
  let w := cs.takeWhile isWordChar
  let rest := cs.dropWhile isWordChar
  match rest with
  | ' ' :: d :: _ =>
    if isDate w && d.isDigit then
      let tail := rest.drop 1
      (w ++ ' ' :: tail.takeWhile isWordChar, tail.dropWhile isWordChar)
    else (w, rest)
  | _ => (w, rest)

def item? (w : List Char) : Option Item :=
  if w == "true".toList then some (.flag true)
  else if w == "false".toList then some (.flag false)
  else if isDateTime w || isFloat w then some .other
  else (integer? w).map .number

end Toml
end ObjectSpace
