import ObjectSpace.Shape.Basic

/-!
# Induction over shapes

A shape holds other shapes by itself, in a list, and in the members of a record. Induction gives the
hypothesis for all of them.
-/

namespace ObjectSpace
namespace Shape

section

variable {motive : Shape → Prop}
  (int : motive int) (float : motive float) (bool : motive bool) (str : motive str)
  (bytes : motive bytes) (instant : motive instant) (uuid : motive uuid)
  (optional : ∀ inner, motive inner → motive (optional inner))
  (union : ∀ alternatives, (∀ s ∈ alternatives, motive s) → motive (union alternatives))
  (list : ∀ element, motive element → motive (list element))
  (set : ∀ element, motive element → motive (set element))
  (map : ∀ key value, motive key → motive value → motive (map key value))
  (tuple : ∀ elements, (∀ s ∈ elements, motive s) → motive (tuple elements))
  (record : ∀ name members, (∀ m ∈ members, motive m.shape) → motive (record name members))
  (reference : ∀ classId, motive (reference classId))
  (choice : ∀ name variants, motive (choice name variants))
  (any : motive any)

include int float bool str bytes instant uuid optional union list set map tuple record reference
  choice any

@[elab_as_elim, induction_eliminator]
theorem induct (s : Shape) : motive s := by
  refine @Shape.rec motive (fun ss => ∀ s ∈ ss, motive s) (fun ms => ∀ m ∈ ms, motive m.shape)
    (fun m => motive m.shape) int float bool str bytes instant uuid optional union list set map
    tuple record reference choice any ?_ ?_ ?_ ?_ ?_ s
  case refine_1 => exact fun _ h => nomatch h
  case refine_2 =>
    intro s ss hs hss t ht
    rcases List.mem_cons.1 ht with rfl | ht
    · exact hs
    · exact hss t ht
  case refine_3 => exact fun _ h => nomatch h
  case refine_4 =>
    intro m ms hm hms n hn
    rcases List.mem_cons.1 hn with rfl | hn
    · exact hm
    · exact hms n hn
  case refine_5 => exact fun _ _ _ h => h

end
end Shape
end ObjectSpace
