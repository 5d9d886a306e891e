import ObjectSpace.Instances
import ObjectSpace.Instant.Calendar

/-!
# Instants

A point in time as seconds since the beginning of 1970 and nanoseconds. A leap second is the second
before it with another thousand million nanoseconds.
-/

namespace ObjectSpace

structure Instant where
  seconds : Int
  nanos : Nat
  nanos_lt : nanos < 2 * 10 ^ 9
  deriving DecidableEq

namespace Instant

instance : Inhabited Instant := ⟨⟨0, 0, by decide⟩⟩

def ofParts? (seconds : Int) (nanos : Nat) : Option Instant :=
  if h : nanos < 2 * 10 ^ 9 then some ⟨seconds, nanos, h⟩ else none

def compare (a b : Instant) : Ordering :=
  (Ord.compare a.seconds b.seconds).then (Ord.compare a.nanos b.nanos)

def secondsPerDay : Int := 86400

end Instant
end ObjectSpace
