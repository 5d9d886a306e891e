import ObjectSpace.Proofs.Ordered
import ObjectSpace.Value.Order

/-!
# The values inside a value

`Within x v` says that `x` is `v` or stands somewhere inside it: as an item, a key, a value of a map
or a member of a record. A value is ordered if all sets, maps and records within it are.
-/

namespace ObjectSpace
namespace Value

inductive Within (x : Value) : Value → Prop
  | self : Within x x
  | list {v : Value} {items : List Value} : v ∈ items → Within x v → Within x (list items)
  | set {v : Value} {items : List Value} : v ∈ items → Within x v → Within x (set items)
  | tuple {v : Value} {items : List Value} : v ∈ items → Within x v → Within x (tuple items)
  | key {e : Value × Value} {entries : List (Value × Value)} :
      e ∈ entries → Within x e.1 → Within x (map entries)
  | value {e : Value × Value} {entries : List (Value × Value)} :
      e ∈ entries → Within x e.2 → Within x (map entries)
  | member {m : String × Value} {members : List (String × Value)} :
      m ∈ members → Within x m.2 → Within x (record members)

/-- The records in the value hold their members in the order of the names, and each once. -/
def WellFormed (v : Value) : Prop :=
  ∀ members, Within (record members) v → Entries.Increasing members

/-- Sets and the keys of maps and records are strictly increasing. -/
def InOrder : Value → Prop
  | set items => Ordered.Increasing Value.compare items
  | map entries => Entries.Increasing entries
  | record members => Entries.Increasing members
  | _ => True

def IsOrdered (v : Value) : Prop := ∀ x, Within x v → x.InOrder

theorem isOrdered_list {items : List Value} (h : ∀ v ∈ items, v.IsOrdered) :
    (list items).IsOrdered := by
  intro x hx
  cases hx with
  | self => trivial
  | list hv hx => exact h _ hv x hx

theorem isOrdered_tuple {items : List Value} (h : ∀ v ∈ items, v.IsOrdered) :
    (tuple items).IsOrdered := by
  intro x hx
  cases hx with
  | self => trivial
  | tuple hv hx => exact h _ hv x hx

theorem isOrdered_set {items : List Value} (ho : Ordered.Increasing Value.compare items)
    (h : ∀ v ∈ items, v.IsOrdered) : (set items).IsOrdered := by
  intro x hx
  cases hx with
  | self => exact ho
  | set hv hx => exact h _ hv x hx

theorem isOrdered_map {entries : List (Value × Value)} (ho : Entries.Increasing entries)
    (hk : ∀ e ∈ entries, e.1.IsOrdered) (hv : ∀ e ∈ entries, e.2.IsOrdered) :
    (map entries).IsOrdered := by
  intro x hx
  cases hx with
  | self => exact ho
  | key he hx => exact hk _ he x hx
  | value he hx => exact hv _ he x hx

theorem isOrdered_record {members : List (String × Value)} (ho : Entries.Increasing members)
    (h : ∀ m ∈ members, m.2.IsOrdered) : (record members).IsOrdered := by
  intro x hx
  cases hx with
  | self => exact ho
  | member hm hx => exact h _ hm x hx

/-- A record made of members holds only values that were among them. -/
theorem isOrdered_ofMembers {members : List (String × Value)}
    (h : ∀ m ∈ members, m.2.IsOrdered) : (ofMembers members).IsOrdered := by
  apply isOrdered_record (Entries.increasing_ofList members)
  intro m hm
  obtain ⟨m', hm', hv⟩ := Entries.exists_mem_of_mem_ofList hm
  exact hv ▸ h m' hm'

end Value
end ObjectSpace
