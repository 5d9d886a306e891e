import ObjectSpace.Value.Basic

/-!
# Induction over values

A value holds other values in a list, in the keys and values of a map, and in the members of a
record. Induction gives the hypothesis for all of them.
-/

namespace ObjectSpace
namespace Value

section

variable {motive : Value → Prop}
  (null : motive null) (bool : ∀ b, motive (bool b)) (int : ∀ n, motive (int n))
  (float : ∀ x, motive (float x)) (str : ∀ s, motive (str s)) (bytes : ∀ b, motive (bytes b))
  (list : ∀ items, (∀ v ∈ items, motive v) → motive (list items))
  (set : ∀ items, (∀ v ∈ items, motive v) → motive (set items))
  (tuple : ∀ items, (∀ v ∈ items, motive v) → motive (tuple items))
  (map : ∀ entries, (∀ e ∈ entries, motive e.1 ∧ motive e.2) → motive (map entries))
  (record : ∀ members, (∀ m ∈ members, motive m.2) → motive (record members))
  (instant : ∀ t, motive (instant t)) (uuid : ∀ u, motive (uuid u)) (ref : ∀ id, motive (ref id))

include null bool int float str bytes list set tuple map record instant uuid ref

@[elab_as_elim, induction_eliminator]
theorem induct (v : Value) : motive v := by
  refine @Value.rec motive (fun vs => ∀ v ∈ vs, motive v)
    (fun es => ∀ e ∈ es, motive e.1 ∧ motive e.2) (fun ms => ∀ m ∈ ms, motive m.2)
    (fun e => motive e.1 ∧ motive e.2) (fun m => motive m.2) null bool int float str bytes list set
    tuple map record instant uuid ref ?_ ?_ ?_ ?_ ?_ ?_ ?_ ?_ v
  case refine_1 => exact List.forall_mem_nil _
  case refine_2 => exact fun v vs hv hvs => List.forall_mem_cons.2 ⟨hv, hvs⟩
  case refine_3 => exact List.forall_mem_nil _
  case refine_4 => exact fun e es he hes => List.forall_mem_cons.2 ⟨he, hes⟩
  case refine_5 => exact List.forall_mem_nil _
  case refine_6 => exact fun m ms hm hms => List.forall_mem_cons.2 ⟨hm, hms⟩
  case refine_7 => exact fun k v hk hv => ⟨hk, hv⟩
  case refine_8 => exact fun _ _ hv => hv

end
end Value
end ObjectSpace
