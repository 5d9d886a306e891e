/-!
# The calendar

Gregorian dates, extended to all years, and the count of days since the first of January 1970.
-/

namespace ObjectSpace

structure Date where
  year : Int
  month : Nat
  day : Nat
  deriving DecidableEq

namespace Date

def isLeap (year : Int) : Bool := year % 4 = 0 && (year % 100 ≠ 0 || year % 400 = 0)

def monthLengths (year : Int) : List Nat :=
  [31, if isLeap year then 29 else 28, 31, 30, 31, 30, 31, 31, 30, 31, 30, 31]

/-- Years that a date may have. -/
def minYear : Int := -262143
def maxYear : Int := 262142

def isValid (d : Date) : Bool :=
  minYear ≤ d.year && d.year ≤ maxYear && 1 ≤ d.month && 1 ≤ d.day &&
    match (monthLengths d.year)[d.month - 1]? with
    | some length => d.day ≤ length
    | none => false

/-- Days from the first of January of year 1 to that of `year`. -/
def daysBeforeYear (year : Int) : Int :=
  let y := year - 1
  365 * y + y / 4 - y / 100 + y / 400

/-- The day that 1970 begins with, counted from the first of January of year 1. -/
def epoch : Int := 719162

def toDays (d : Date) : Int :=
  let days : Nat := ((monthLengths d.year).take (d.month - 1)).foldl (· + ·) 0
  daysBeforeYear d.year + days + d.day - 1 - epoch

/-- The month and day of the day with this number in its year. -/
def monthDay (month : Nat) : List Nat → Nat → Nat × Nat
  | [], n => (month, n + 1)
  | length :: rest, n =>
    if n < length then (month, n + 1) else monthDay (month + 1) rest (n - length)

/-- A cycle of 400 years has 146097 days; only the last of its centuries, of the four-year spans of
a century and of the years of a span may be a day longer than the others. -/
def ofDays (days : Int) : Date :=
  let n := days + epoch
  let cycle := n / 146097
  let inCycle := (n % 146097).toNat
  let century := min (inCycle / 36524) 3
  let inCentury := inCycle - century * 36524
  let span := inCentury / 1461
  let inSpan := inCentury % 1461
  let year := min (inSpan / 365) 3
  let y : Int := 400 * cycle + (100 * century + 4 * span + year + 1 : Nat)
  let (month, day) := monthDay 1 (monthLengths y) (inSpan - year * 365)
  ⟨y, month, day⟩

end Date
end ObjectSpace
