import ObjectSpace.Text.Integer

/-!
# Durations as text

A number of milliseconds is written in seconds with as many fraction digits as it needs, or in
milliseconds where it is shorter than a second.
-/

namespace ObjectSpace
namespace Text

/-- The digits of a fraction without the zeros at its end. -/
def fractionDigits (width n : Nat) : List Char :=
  let ds := Nat.toDigits 10 n
  let padded := List.replicate (width - ds.length) '0' ++ ds
  (padded.reverse.dropWhile (· == '0')).reverse

def duration (ms : Nat) : String :=
  if ms = 0 then "0ns"
  else if ms < 1000 then toString ms ++ "ms"
  else if ms % 1000 = 0 then toString (ms / 1000) ++ "s"
  else toString (ms / 1000) ++ "." ++ String.ofList (fractionDigits 3 (ms % 1000)) ++ "s"

end Text
end ObjectSpace
