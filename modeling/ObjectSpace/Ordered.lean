/-!
# Lists kept in order

`sort` is stable insertion sort and `distinct` keeps one member of every class of equal members,
the first one. A list is `Increasing` when each member is strictly below all later ones; this is
the canonical form of a set, and of the keys of a map. `search` finds a member of such a list and
looks at no more members than the list can be halved.
-/

namespace ObjectSpace
namespace Ordered

variable {α : Type u} (cmp : α → α → Ordering)

/-- Every member is strictly below all the members after it. -/
def Increasing (xs : List α) : Prop := xs.Pairwise fun a b => cmp a b = .lt

instance (xs : List α) : Decidable (Increasing cmp xs) :=
  inferInstanceAs (Decidable (xs.Pairwise _))

/-- Puts `x` in front of the first member that is not below it. -/
def place (x : α) : List α → List α
  | [] => [x]
  | y :: ys => if cmp x y = .gt then y :: place x ys else x :: y :: ys

def sort (xs : List α) : List α := xs.foldr (place cmp) []

/-- Like `place`, but `x` takes the place of a member equal to it. -/
def add (x : α) : List α → List α
  | [] => [x]
  | y :: ys =>
    match cmp x y with
    | .lt => x :: y :: ys
    | .eq => x :: ys
    | .gt => y :: add x ys

def distinct (xs : List α) : List α := xs.foldr (add cmp) []

/-- The first member that its successor equals. -/
def firstRepeat : List α → Option α
  | x :: y :: rest => if cmp x y = .eq then some x else firstRepeat (y :: rest)
  | _ => none

/-- Looks for a member in the middle, and then in one of the halves. `side x` tells on which side of
what is looked for `x` stands. -/
def searchWithin (side : α → Ordering) : Nat → List α → Option α
  | 0, _ => none
  | n + 1, xs =>
    match xs.drop (xs.length / 2) with
    | [] => none
    | y :: ys =>
      match side y with
      | .lt => searchWithin side n ys
      | .eq => some y
      | .gt => searchWithin side n (xs.take (xs.length / 2))

def search (side : α → Ordering) (xs : List α) : Option α := searchWithin side xs.length xs

theorem mem_place {x y : α} {ys : List α} : y ∈ place cmp x ys ↔ y = x ∨ y ∈ ys := by
  induction ys with
  | nil => simp [place]
  | cons z zs ih =>
    unfold place
    split <;> simp [ih, or_left_comm]

theorem mem_add_imp {x y : α} {ys : List α} (h : y ∈ add cmp x ys) : y = x ∨ y ∈ ys := by
  induction ys with
  | nil => simpa [add] using h
  | cons z zs ih =>
    unfold add at h
    split at h
    · simpa using h
    · rcases List.mem_cons.1 h with h | h
      · exact .inl h
      · exact .inr (List.mem_cons_of_mem _ h)
    · rcases List.mem_cons.1 h with h | h
      · exact .inr (h ▸ List.mem_cons_self)
      · exact (ih h).imp_right (List.mem_cons_of_mem _)

theorem increasing_add [Std.TransCmp cmp] {x : α} {ys : List α} (h : Increasing cmp ys) :
    Increasing cmp (add cmp x ys) := by
  induction ys with
  | nil => simp [add, Increasing]
  | cons y ys ih =>
    obtain ⟨hy, hys⟩ := List.pairwise_cons.1 h
    unfold add
    split
    case h_1 hxy =>
      refine List.pairwise_cons.2 ⟨fun z hz => ?_, h⟩
      rcases List.mem_cons.1 hz with rfl | hz
      · exact hxy
      · exact Std.TransCmp.lt_trans hxy (hy z hz)
    case h_2 hxy =>
      refine List.pairwise_cons.2 ⟨fun z hz => ?_, hys⟩
      exact Std.TransCmp.lt_of_eq_of_lt hxy (hy z hz)
    case h_3 hxy =>
      refine List.pairwise_cons.2 ⟨fun z hz => ?_, ih hys⟩
      rcases mem_add_imp cmp hz with rfl | hz
      · exact Std.OrientedCmp.lt_of_gt hxy
      · exact hy z hz

theorem increasing_distinct [Std.TransCmp cmp] (xs : List α) :
    Increasing cmp (distinct cmp xs) := by
  induction xs with
  | nil => simp [distinct, Increasing]
  | cons x xs ih => exact increasing_add cmp ih

end Ordered
end ObjectSpace
