import ObjectSpace.Instant.Basic
import ObjectSpace.Text.Blank
import ObjectSpace.Text.Integer

/-!
# Instants as text

An instant is written as an RFC 3339 date and time in UTC, with as many groups of three fraction
digits as it needs. Reading takes any offset, or none: without an offset the fields may be shorter
and stand behind white space.
-/

namespace ObjectSpace
namespace Instant

/-- At least `width` digits. -/
def padded (width n : Nat) : String :=
  let ds := Nat.toDigits 10 n
  String.ofList (List.replicate (width - ds.length) '0' ++ ds)

/-- Years beyond four digits, and those before year 0, carry a sign. -/
def yearText (y : Int) : String :=
  if 0 ≤ y && y ≤ 9999 then padded 4 y.toNat
  else (if y < 0 then "-" else "+") ++ padded 4 y.natAbs

def fractionText (nanos : Nat) : String :=
  if nanos = 0 then ""
  else if nanos % 1000000 = 0 then "." ++ padded 3 (nanos / 1000000)
  else if nanos % 1000 = 0 then "." ++ padded 6 (nanos / 1000)
  else "." ++ padded 9 nanos

def text (t : Instant) : String :=
  let date := Date.ofDays (t.seconds / secondsPerDay)
  let second := (t.seconds % secondsPerDay).toNat
  let carry := t.nanos / 1000000000
  yearText date.year ++ "-" ++ padded 2 date.month ++ "-" ++ padded 2 date.day ++ "T" ++
    padded 2 (second / 3600) ++ ":" ++ padded 2 (second / 60 % 60) ++ ":" ++
    padded 2 (second % 60 + carry) ++ fractionText (t.nanos % 1000000000) ++ "Z"

/-- Date and time of day as they are read. -/
structure Fields where
  year : Int
  month : Nat
  day : Nat
  hour : Nat
  minute : Nat
  second : Nat
  nanos : Nat

/-- The instant of fields that are `offset` seconds ahead of UTC. Second 60 is the leap second
behind second 59. -/
def Fields.instant? (f : Fields) (offset : Int) : Option Instant :=
  let date : Date := ⟨f.year, f.month, f.day⟩
  if date.isValid && f.hour < 24 && f.minute < 60 && f.second ≤ 60 then
    let leap := f.second / 60
    let time := f.hour * 3600 + f.minute * 60 + (f.second - leap)
    ofParts? (date.toDays * secondsPerDay + time - offset) (f.nanos + leap * 1000000000)
  else none

/-! Readers take the text in front of them and give what follows. -/

abbrev Reader (α : Type) := List Char → Option (α × List Char)

/-- `least` to `most` digits, as many as there are. -/
def digits (least : Nat) (most : Option Nat) : Reader Nat := fun cs =>
  let ds := cs.takeWhile Char.isDigit
  let ds := match most with
    | some n => ds.take n
    | none => ds
  if ds.length < least then none
  else (Integer.natOfDigits? ds).map (·, cs.drop ds.length)

def mark (ok : Char → Bool) : Reader Unit
  | c :: cs => if ok c then some ((), cs) else none
  | [] => none

/-- A point and at least one digit, of which nine count; or nothing. -/
def fraction : Reader Nat
  | '.' :: cs =>
    let ds := cs.takeWhile Char.isDigit
    let kept := ds.take 9
    (Integer.natOfDigits? kept).map fun n =>
      (n * 10 ^ (9 - kept.length), cs.drop ds.length)
  | cs => some (0, cs)

/-- Seconds ahead of UTC. -/
def offset : Reader Int := fun cs =>
  match cs with
  | 'Z' :: rest | 'z' :: rest => some (0, rest)
  | sign :: rest => do
    let negative ← if sign = '+' then some false
      else if sign = '-' || sign = '\u2212' then some true else none
    let (hours, rest) ← digits 2 (some 2) rest
    let (_, rest) ← mark (· == ':') rest
    let (minutes, rest) ← digits 2 (some 2) rest
    if hours < 24 && minutes < 60 then
      let seconds : Int := (hours * 3600 + minutes * 60 : Nat)
      some (if negative then -seconds else seconds, rest)
    else none
  | [] => none

/-- Fields of fixed width with an offset behind them. -/
def ofRfc3339? (cs : List Char) : Option Instant := do
  let (year, cs) ← digits 4 (some 4) cs
  let (_, cs) ← mark (· == '-') cs
  let (month, cs) ← digits 2 (some 2) cs
  let (_, cs) ← mark (· == '-') cs
  let (day, cs) ← digits 2 (some 2) cs
  let (_, cs) ← mark (fun c => c == 'T' || c == 't' || c == ' ') cs
  let (hour, cs) ← digits 2 (some 2) cs
  let (_, cs) ← mark (· == ':') cs
  let (minute, cs) ← digits 2 (some 2) cs
  let (_, cs) ← mark (· == ':') cs
  let (second, cs) ← digits 2 (some 2) cs
  let (nanos, cs) ← fraction cs
  let (ahead, cs) ← offset cs
  if cs.isEmpty then Fields.instant? ⟨year, month, day, hour, minute, second, nanos⟩ ahead else none

/-- One or two digits behind white space. -/
def shortNumber : Reader Nat := fun cs => digits 1 (some 2) (Text.trimLeft cs)

/-- Up to four digits, or any number behind a sign. -/
def freeYear : Reader Int := fun cs =>
  match Text.trimLeft cs with
  | '-' :: rest => (digits 1 none rest).map fun (n, rest) => (-(n : Int), rest)
  | '+' :: rest => (digits 1 none rest).map fun (n, rest) => ((n : Int), rest)
  | rest => (digits 1 (some 4) rest).map fun (n, rest) => ((n : Int), rest)

/-- Fields of any width, in UTC. `between` reads what stands between date and time. -/
def ofLoose? (between : Reader Unit) (cs : List Char) : Option Instant := do
  let (year, cs) ← freeYear cs
  let (_, cs) ← mark (· == '-') cs
  let (month, cs) ← shortNumber cs
  let (_, cs) ← mark (· == '-') cs
  let (day, cs) ← shortNumber cs
  let (_, cs) ← between cs
  let (hour, cs) ← shortNumber cs
  let (_, cs) ← mark (· == ':') cs
  let (minute, cs) ← shortNumber cs
  let (_, cs) ← mark (· == ':') cs
  let (second, cs) ← shortNumber cs
  let (nanos, cs) ← fraction cs
  if cs.isEmpty then Fields.instant? ⟨year, month, day, hour, minute, second, nanos⟩ 0 else none

/-- A `T` between date and time, or white space, which may be missing. -/
def ofText? (s : String) : Option Instant :=
  let cs := s.toList
  ofRfc3339? cs <|> ofLoose? (mark (· == 'T')) cs <|>
    ofLoose? (fun cs => some ((), Text.trimLeft cs)) cs

end Instant
end ObjectSpace
