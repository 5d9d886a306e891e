import ObjectSpace.Ordered
import ObjectSpace.Value.Basic

/-!
# The order of values

All values are ordered: values of different kinds by their kinds, values of one kind by content.
Sequences compare member by member, and a proper beginning is below what it begins. `same` is
another equality, under which a NaN equals nothing and the two zeros are equal.
-/

namespace ObjectSpace
namespace Value

def rank : Value → Nat
  | null => 0
  | bool _ => 1
  | int _ => 2
  | float _ => 3
  | str _ => 4
  | bytes _ => 5
  | instant _ => 6
  | uuid _ => 7
  | ref _ => 8
  | tuple _ => 9
  | list _ => 10
  | set _ => 11
  | map _ => 12
  | record _ => 13

mutual

protected def compare : Value → Value → Ordering
  | bool a, bool b => Ord.compare a b
  | int a, int b => Ord.compare a b
  | float a, float b => a.compare b
  | str a, str b => Ord.compare a b
  | bytes a, bytes b => Ord.compare a.data.toList b.data.toList
  | instant a, instant b => a.compare b
  | uuid a, uuid b => a.compare b
  | ref a, ref b => a.compare b
  | tuple as, tuple bs => compareItems as bs
  | list as, list bs => compareItems as bs
  | set as, set bs => compareItems as bs
  | map as, map bs => compareEntries as bs
  | record as, record bs => compareMembers as bs
  | a, b => Ord.compare a.rank b.rank
  termination_by structural a => a

def compareItems : List Value → List Value → Ordering
  | [], [] => .eq
  | [], _ :: _ => .lt
  | _ :: _, [] => .gt
  | a :: as, b :: bs => (Value.compare a b).then (compareItems as bs)
  termination_by structural as => as

def compareEntries : List (Value × Value) → List (Value × Value) → Ordering
  | [], [] => .eq
  | [], _ :: _ => .lt
  | _ :: _, [] => .gt
  | (k, a) :: as, (k', b) :: bs =>
    ((Value.compare k k').then (Value.compare a b)).then (compareEntries as bs)
  termination_by structural as => as

def compareMembers : List (String × Value) → List (String × Value) → Ordering
  | [], [] => .eq
  | [], _ :: _ => .lt
  | _ :: _, [] => .gt
  | (k, a) :: as, (k', b) :: bs =>
    ((Ord.compare k k').then (Value.compare a b)).then (compareMembers as bs)
  termination_by structural as => as

end

instance : Ord Value := ⟨Value.compare⟩

mutual

/-- Equality of content, where floating-point numbers are equal as numbers. -/
def same : Value → Value → Bool
  | null, null => true
  | bool a, bool b => a == b
  | int a, int b => a == b
  | float a, float b => a.same b
  | str a, str b => a == b
  | bytes a, bytes b => a.data == b.data
  | instant a, instant b => a == b
  | uuid a, uuid b => a == b
  | ref a, ref b => a == b
  | tuple as, tuple bs => sameItems as bs
  | list as, list bs => sameItems as bs
  | set as, set bs => sameItems as bs
  | map as, map bs => sameEntries as bs
  | record as, record bs => sameMembers as bs
  | _, _ => false
  termination_by structural a => a

def sameItems : List Value → List Value → Bool
  | [], [] => true
  | a :: as, b :: bs => same a b && sameItems as bs
  | _, _ => false
  termination_by structural as => as

def sameEntries : List (Value × Value) → List (Value × Value) → Bool
  | [], [] => true
  | (k, a) :: as, (k', b) :: bs => same k k' && same a b && sameEntries as bs
  | _, _ => false
  termination_by structural as => as

def sameMembers : List (String × Value) → List (String × Value) → Bool
  | [], [] => true
  | (k, a) :: as, (k', b) :: bs => k == k' && same a b && sameMembers as bs
  | _, _ => false
  termination_by structural as => as

end

/-- The members of a set: in order, and each once. -/
def canonicalItems (items : List Value) : List Value := Ordered.distinct Value.compare items

def setOf (items : List Value) : Value := set (canonicalItems items)

/-- In the order of the keys; of several entries with one key the last value wins. -/
def mapOf (entries : List (Value × Value)) : Value := map (Entries.ofList entries)

end Value
end ObjectSpace
