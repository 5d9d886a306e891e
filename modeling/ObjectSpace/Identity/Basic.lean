import ObjectSpace.Text.Integer

/-!
# Identities

An identity names one object: its class, a partition, and a number within them. Identities are
ordered by class first, then partition, then number.
-/

namespace ObjectSpace

structure Identity where
  classId : String
  partition : UInt32
  object : UInt64
  deriving DecidableEq, Inhabited

namespace Identity

def compare : Identity → Identity → Ordering :=
  compareLex (compareOn classId) (compareLex (compareOn partition) (compareOn object))

instance : Ord Identity := ⟨compare⟩

instance : Std.TransOrd Identity :=
  inferInstanceAs (Std.TransCmp (compareLex _ _))

theorem eq_of_compare {a b : Identity} (h : compare a b = .eq) : a = b := by
  obtain ⟨h₁, h⟩ := Ordering.then_eq_eq.1 h
  obtain ⟨h₂, h₃⟩ := Ordering.then_eq_eq.1 h
  have hc : a.classId = b.classId := Std.LawfulEqOrd.eq_of_compare h₁
  have hp : a.partition = b.partition := Std.LawfulEqOrd.eq_of_compare h₂
  have ho : a.object = b.object := Std.LawfulEqOrd.eq_of_compare h₃
  cases a; cases b; simp_all

instance : Std.LawfulEqOrd Identity where
  compare_self := Std.ReflOrd.compare_self
  eq_of_compare := eq_of_compare

/-- Class, partition and number behind each other. -/
def text (id : Identity) : String :=
  id.classId ++ "/" ++ toString id.partition.toNat ++ "/" ++ toString id.object.toNat

/-- The text with the name of the type around it. -/
def debugText (id : Identity) : String := "ObjectIdentity(" ++ id.text ++ ")"

/-- Numbers that have a written form; they are written as signed 64-bit integers. -/
def isWritable (id : Identity) : Bool := id.object.toNat < 2 ^ 63

end Identity
end ObjectSpace
