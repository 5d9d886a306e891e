import ObjectSpace.Proofs.Binary64.Round
import ObjectSpace.Proofs.Codec.Canonical
import ObjectSpace.Proofs.Identity.Json

/-!
# Whole numbers keep their value

A whole number of a document becomes a whole number or a floating-point number, and so does one that
is coerced. Numbers up to `2 ^ 53` have a floating-point number of their own, and those of the signed
range beyond are refused where they would be rounded. A document can hold still higher ones, and of
these the nearest floating-point number is read, whether or not it is equal.
-/

namespace ObjectSpace

namespace Value

def isNumber : Value → Bool
  | int _ => true
  | float _ => true
  | _ => false

/-- The value is a number, and equal to `n`. -/
def IsWhole (n : Int) : Value → Prop
  | int m => m.toInt = n
  | float x => x.toInt? = some n
  | _ => False

/-- The value is a number equal to `n`, or the nearest one if `n` is beyond the signed range. -/
def StandsFor (n : Int) (v : Value) : Prop :=
  v.IsWhole n ∨ maxInt64 < n ∧ v = float (.ofInt n)

end Value

namespace Json

/-- The whole number stands somewhere in the document. -/
inductive HasInt (n : Int) : Json → Prop
  | self : HasInt n (int n)
  | item {j : Json} {items : List Json} : j ∈ items → HasInt n j → HasInt n (arr items)
  | member {m : String × Json} {members : List (String × Json)} : m ∈ members → HasInt n m.2 →
      HasInt n (obj members)

end Json

/-- At each place where the document has a whole number, the value has what stands for it. Members
that are not asked for have no place in the value. -/
inductive KeepsIntegers : Json → Value → Prop
  | int {n : Int} {v : Value} : v.StandsFor n → KeepsIntegers (.int n) v
  | without {j : Json} {v : Value} : (∀ n, ¬ j.HasInt n) → KeepsIntegers j v
  | list {js : List Json} {vs : List Value} : List.Forall₂ KeepsIntegers js vs →
      KeepsIntegers (.arr js) (.list vs)
  | set {js : List Json} {vs : List Value} : List.Forall₂ KeepsIntegers js vs →
      KeepsIntegers (.arr js) (.setOf vs)
  | tuple {js : List Json} {vs : List Value} : List.Forall₂ KeepsIntegers js vs →
      KeepsIntegers (.arr js) (.tuple vs)
  | pairs {pairs : List (Json × Json)} {entries sorted : List (Value × Value)} :
      List.Forall₂ (fun p e => KeepsIntegers p.1 e.1) pairs entries →
      List.Forall₂ (fun p e => KeepsIntegers p.2 e.2) pairs entries → sorted.Perm entries →
      KeepsIntegers (.arr (pairs.map fun p => .arr [p.1, p.2])) (.map sorted)
  | entries {members : List (String × Json)} {entries sorted : List (Value × Value)} :
      List.Forall₂ (fun m e => KeepsIntegers m.2 e.2) members entries → sorted.Perm entries →
      KeepsIntegers (.obj members) (.map sorted)
  | record {members : List (String × Json)} {rs : List (String × Value)} :
      (∀ r ∈ rs, ∀ a, Entries.lookup r.1 members = some a → KeepsIntegers a r.2) →
      KeepsIntegers (.obj members) (.ofMembers rs)
  | untyped {members : List (String × Json)} {rs : List (String × Value)} :
      rs.map Prod.fst = members.map Prod.fst →
      List.Forall₂ (fun m r => KeepsIntegers m.2 r.2) members rs →
      KeepsIntegers (.obj members) (.ofMembers rs)
  | reference {members : List (String × Json)} {id : Identity} :
      (∀ n, Entries.lookup Identity.objectKey members = some (.int n) → id.object.toNat = n) →
      (∀ n, Entries.lookup Identity.partitionKey members = some (.int n) →
        id.partition.toNat = n) →
      KeepsIntegers (.obj members) (.ref id)

namespace Shape

open Success

/-! ## Untyped data -/

mutual

theorem keepsIntegers_plainOfJson {j : Json} (hj : j.WellFormed) :
    KeepsIntegers j (plainOfJson j) := by
  cases j with
  | null | bool | float | str => exact .without (by rintro _ ⟨⟩)
  | int n =>
    refine .int ?_
    rw [plainOfJson]
    split
    case h_1 m hm => exact .inl (toInt_of_int64? hm)
    case h_2 hnone =>
      cases hj with
      | int hn =>
        have hlow : minInt64 ≤ n := of_decide_eq_true (Bool.and_eq_true_iff.1 hn).1
        unfold int64? at hnone
        split at hnone
        · cases hnone
        case isFalse hrange =>
          exact .inr ⟨Int.lt_of_not_ge fun hle => hrange ⟨hlow, hle⟩, rfl⟩
  | arr items => exact .list (keepsIntegers_plainItems hj.items)
  | obj members =>
    obtain ⟨hnames, hall⟩ := keepsIntegers_plainMembers hj.members
    exact .untyped hnames hall
  termination_by structural j

theorem keepsIntegers_plainItems {js : List Json} (hj : ∀ j ∈ js, j.WellFormed) :
    List.Forall₂ KeepsIntegers js (plainItems js) := by
  cases js with
  | nil => exact .nil
  | cons j js =>
    obtain ⟨hj, hjs⟩ := List.forall_mem_cons.1 hj
    exact .cons (keepsIntegers_plainOfJson hj) (keepsIntegers_plainItems hjs)
  termination_by structural js

theorem keepsIntegers_plainMembers {ms : List (String × Json)} (hj : ∀ m ∈ ms, m.2.WellFormed) :
    (plainMembers ms).map Prod.fst = ms.map Prod.fst ∧
      List.Forall₂ (fun m r => KeepsIntegers m.2 r.2) ms (plainMembers ms) := by
  cases ms with
  | nil => exact ⟨rfl, .nil⟩
  | cons m ms =>
    obtain ⟨name, j⟩ := m
    obtain ⟨hj, hjs⟩ := List.forall_mem_cons.1 hj
    obtain ⟨hnames, hall⟩ := keepsIntegers_plainMembers hjs
    exact ⟨congrArg (name :: ·) hnames, .cons (keepsIntegers_plainOfJson hj) hall⟩
  termination_by structural ms

end

/-! ## Typed data -/

end Shape
end ObjectSpace
