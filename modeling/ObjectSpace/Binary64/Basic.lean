import ObjectSpace.Instances

/-!
# Binary floating-point numbers

A number of the IEEE 754 format binary64 is held by its encoding, so that every NaN and both zeros
are values of their own. Below the sign bit lies the magnitude; magnitudes grow with the absolute
value, all finite ones are below that of infinity, and all above it are NaNs.
-/

namespace ObjectSpace

structure Binary64 where
  bits : UInt64
  deriving DecidableEq, Inhabited

namespace Binary64

def isNegative (x : Binary64) : Bool := 2 ^ 63 ≤ x.bits.toNat

/-- The encoding without its sign bit. -/
def magnitude (x : Binary64) : Nat := x.bits.toNat % 2 ^ 63

/-- The magnitude of infinity. -/
def limit : Nat := 2047 * 2 ^ 52

def ofMagnitude (negative : Bool) (m : Nat) : Binary64 :=
  ⟨UInt64.ofNat ((if negative then 2 ^ 63 else 0) + m)⟩

def zero : Binary64 := ofMagnitude false 0

def isFinite (x : Binary64) : Bool := x.magnitude < limit
def isNaN (x : Binary64) : Bool := limit < x.magnitude

/-- Two numbers are the same if neither is a NaN and they are equal or both zero. -/
def same (x y : Binary64) : Bool :=
  !x.isNaN && (x == y || (x.magnitude == 0 && y.magnitude == 0))

/-- The place in the total order: negative numbers by falling magnitude, then the others. -/
def rank (x : Binary64) : Int :=
  if x.isNegative then -(x.magnitude : Int) - 1 else x.magnitude

def compare (x y : Binary64) : Ordering := Ord.compare x.rank y.rank

/-! A finite number with magnitude `m` is `significand m * 2 ^ exponent m` but for the sign. -/

def significand (m : Nat) : Nat := if m < 2 ^ 52 then m else 2 ^ 52 + m % 2 ^ 52

def exponent (m : Nat) : Int := (max (m / 2 ^ 52) 1 : Nat) - 1075

/-- The number as an integer, if it is one. -/
def toInt? (x : Binary64) : Option Int :=
  if x.isFinite then
    let s := significand x.magnitude
    let e := exponent x.magnitude
    let whole? := if 0 ≤ e then some (s * 2 ^ e.toNat)
      else if s % 2 ^ (-e).toNat = 0 then some (s / 2 ^ (-e).toNat) else none
    whole?.map fun n => if x.isNegative then -(n : Int) else n
  else none

theorem magnitude_ofMagnitude {negative : Bool} {m : Nat} (h : m < 2 ^ 63) :
    (ofMagnitude negative m).magnitude = m := by
  cases negative <;> simp [ofMagnitude, magnitude] <;> omega

theorem ofMagnitude_magnitude (x : Binary64) : ofMagnitude x.isNegative x.magnitude = x := by
  have hx : x.bits.toNat < 2 ^ 64 := UInt64.toNat_lt_size _
  suffices (ofMagnitude x.isNegative x.magnitude).bits = x.bits by
    cases x; exact congrArg mk this
  apply UInt64.toNat_inj.1
  simp only [ofMagnitude, magnitude, isNegative, UInt64.toNat_ofNat', decide_eq_true_eq]
  split <;> omega

theorem eq_of_magnitude_eq {x y : Binary64} (hs : x.isNegative = y.isNegative)
    (hm : x.magnitude = y.magnitude) : x = y := by
  rw [← ofMagnitude_magnitude x, ← ofMagnitude_magnitude y, hs, hm]

/-- Numbers of one rank are equal, so the total order tells all numbers apart. -/
theorem eq_of_rank_eq {x y : Binary64} (h : x.rank = y.rank) : x = y := by
  unfold rank at h
  cases hx : x.isNegative <;> cases hy : y.isNegative <;> simp only [hx, hy] at h
  · exact eq_of_magnitude_eq (hx.trans hy.symm) (by simp at h; omega)
  · simp at h; omega
  · simp at h; omega
  · exact eq_of_magnitude_eq (hx.trans hy.symm) (by simp at h; omega)

end Binary64
end ObjectSpace
