import ObjectSpace.Binary64.Round

/-!
# The fewest digits that read back

The reals that round to a finite magnitude form an interval around its value. On the coarsest
decimal grid that has a point in this interval, the point nearest to the value is its shortest
decimal. Everything is counted in quarters of the last place: the value is four times the
significand and the interval ends two quarters off, below a power of two one quarter.
-/

namespace ObjectSpace
namespace Binary64

/-- Where a value halfway between two points of a grid goes. -/
inductive Tie where
  | even
  | up
  deriving DecidableEq

/-- Whether the gap below this magnitude is half of that above. -/
def halvedBelow (m : Nat) : Bool := m % 2 ^ 52 == 0 && 2 ^ 52 < m

/-- Whether `n / d`, in quarters of the last place, rounds to the magnitude `m`. -/
def roundsBack (m n d : Nat) : Bool :=
  let v := 4 * significand m
  let low := (if halvedBelow m then v - 1 else v - 2) * d
  let high := (v + 2) * d
  if m % 2 = 0 then low ≤ n && n ≤ high else low < n && n < high

/-- One step of the grid `10 ^ k`, in quarters of the last place of `m`. -/
def gridStep (m : Nat) (k : Int) : Nat × Nat :=
  let e := exponent m - 2
  if 0 ≤ k then scale (10 ^ k.toNat) 1 e else scale 1 (10 ^ (-k).toNat) e

/-- The point of the grid with step `p / q` nearest to `v`. -/
def nearestPoint (tie : Tie) (v p q : Nat) : Nat :=
  let below := v * q / p
  let rest := v * q % p
  if 2 * rest < p then below
  else if p < 2 * rest then below + 1
  else match tie with
    | .up => below + 1
    | .even => below + below % 2

/-- The point of the grid `10 ^ k` nearest to the value of `m` among those that read back. -/
def pointOn? (tie : Tie) (m : Nat) (k : Int) : Option Nat :=
  let (p, q) := gridStep m k
  let v := 4 * significand m
  let below := v * q / p
  let near := nearestPoint tie v p q
  if roundsBack m (near * p) q then some near
  else if roundsBack m (below * p) q then some below
  else if roundsBack m ((below + 1) * p) q then some (below + 1)
  else none

/-- Goes to finer grids until one has a point that reads back, `steps` times at most. -/
def search (tie : Tie) (m : Nat) (k : Int) : Nat → Nat × Int
  | 0 =>
    let (p, q) := gridStep m k
    (nearestPoint tie (4 * significand m) p q, k)
  | steps + 1 =>
    match pointOn? tie m k with
    | some d => (d, k)
    | none => search tie m (k - 1) steps

/-- No point of this grid but zero is below the value; `0.30103` is just above the decimal logarithm
of two. -/
def coarsest (m : Nat) : Int :=
  ((Nat.log2 (significand m) + 1 + exponent m) * 30103).fdiv 100000 + 1

/-- The shortest decimal of a finite magnitude. The grid `10 ^ (-324)` is finer than every gap. -/
def shortest (tie : Tie) (m : Nat) : Nat × Int :=
  if m = 0 then (0, 0)
  else search tie m (coarsest m) (coarsest m + 324).toNat

end Binary64
end ObjectSpace
