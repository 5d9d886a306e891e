import ObjectSpace.Binary64.Basic

/-!
# Rounding to binary64

The magnitude nearest to a ratio, of two nearest ones the even one. All arithmetic is exact.
-/

namespace ObjectSpace
namespace Binary64

/-- The integer nearest to `n / d`; a half goes to the even neighbour. -/
def roundDiv (n d : Nat) : Nat :=
  if 2 * (n % d) < d then n / d
  else if d < 2 * (n % d) then n / d + 1
  else n / d + n / d % 2

/-- Numerator and denominator of `n / d / 2 ^ e`. -/
def scale (n d : Nat) (e : Int) : Nat × Nat :=
  if 0 ≤ e then (n, d * 2 ^ e.toNat) else (n * 2 ^ (-e).toNat, d)

/-- The largest `k` with `2 ^ k ≤ n / d`. -/
def floorLog (n d : Nat) : Int :=
  let k : Int := (Nat.log2 n : Int) - Nat.log2 d
  let (p, q) := scale n d k
  if q ≤ p then k else k - 1

/-- The exponent of the last place of the numbers around `n / d`. -/
def lastPlace (n d : Nat) : Int := max (-1074) (floorLog n d - 52)

/-- The magnitude nearest to `n / d`. A significand that rounds up to the next power of two carries
into the exponent by itself. -/
def nearest (n d : Nat) : Nat :=
  if n = 0 then 0
  else
    let e := lastPlace n d
    let (p, q) := scale n d e
    min limit ((e + 1074).toNat * 2 ^ 52 + roundDiv p q)

def ofInt (n : Int) : Binary64 := ofMagnitude (n < 0) (nearest n.natAbs 1)

/-- A decimal number `digits * 10 ^ exponent` with a sign. -/
structure Decimal where
  negative : Bool
  digits : Nat
  exponent : Int
  deriving DecidableEq

/-- The magnitude nearest to `n * 10 ^ k`. Numbers from `10 ^ 400` up are infinite and those below
`10 ^ (-400)` vanish, so that no exponent costs more than its digits. -/
def nearestDecimal (n : Nat) (k : Int) : Nat :=
  if n = 0 then 0
  else if 400 < k then limit
  else if k + (Nat.toDigits 10 n).length < -400 then 0
  else if 0 ≤ k then nearest (n * 10 ^ k.toNat) 1
  else nearest n (10 ^ (-k).toNat)

def ofDecimal (d : Decimal) : Binary64 :=
  ofMagnitude d.negative (nearestDecimal d.digits d.exponent)

end Binary64
end ObjectSpace
