import ObjectSpace.Proofs.Ordered

/-!
# Tables by lookup

A table is determined by what it holds under each key, so tables are compared, changed and combined
by lookups alone.
-/

namespace ObjectSpace

namespace Table

variable {κ : Type u} {ν : Type v} [Ord κ]

theorem contains_iff {t : Table κ ν} {k : κ} : t.contains k = true ↔ ∃ v, t.get? k = some v :=
  Option.isSome_iff_exists

theorem get?_eq_none_iff {t : Table κ ν} {k : κ} : t.get? k = none ↔ t.contains k = false := by
  rw [contains, Option.isSome_eq_false_iff, Option.isNone_iff_eq_none]

theorem get?_mapValues {μ : Type w} (f : ν → μ) (t : Table κ ν) (k : κ) :
    (t.mapValues f).get? k = (t.get? k).map f := by
  have h : ∀ es : List (κ × ν), Entries.lookup k (es.map fun e => (e.1, f e.2)) =
      (Entries.lookup k es).map f := by
    intro es
    induction es with
    | nil => rfl
    | cons e es ih =>
      simp only [List.map_cons, Entries.lookup, ih]
      split <;> rfl
  exact h t.entries

variable [Std.LawfulEqOrd κ]

theorem nodup_keys (t : Table κ ν) : t.keys.Nodup := Entries.nodup_keys_of_increasing t.increasing

theorem get?_eq_some_iff {t : Table κ ν} {k : κ} {v : ν} :
    t.get? k = some v ↔ (k, v) ∈ t.entries := Entries.lookup_eq_some_iff t.nodup_keys

theorem mem_keys {t : Table κ ν} {k : κ} : k ∈ t.keys ↔ t.contains k = true := by
  rw [contains_iff, keys, List.mem_map]
  constructor
  · rintro ⟨⟨k', v⟩, hmem, rfl⟩
    exact ⟨v, get?_eq_some_iff.2 hmem⟩
  · rintro ⟨v, hv⟩
    exact ⟨(k, v), get?_eq_some_iff.1 hv, rfl⟩

theorem get?_filter (t : Table κ ν) (p : κ → ν → Bool) (k : κ) :
    (t.filter p).get? k = (t.get? k).filter (p k) := by
  apply Option.ext
  intro v
  rw [Option.filter_eq_some_iff, get?_eq_some_iff, get?_eq_some_iff, filter, List.mem_filter]

variable [Std.TransOrd κ]

/-- Tables that hold the same under each key are equal. -/
theorem ext_get? {t u : Table κ ν} (h : ∀ k, t.get? k = u.get? k) : t = u := by
  refine ext_entries (Entries.eq_of_perm ?_ t.increasing u.increasing)
  have ht : t.entries.Nodup := .of_map _ t.nodup_keys
  have hu : u.entries.Nodup := .of_map _ u.nodup_keys
  apply (List.perm_ext_iff_of_nodup ht hu).2
  intro e
  obtain ⟨k, v⟩ := e
  rw [← get?_eq_some_iff, ← get?_eq_some_iff, h]

theorem isEmpty_iff {t : Table κ ν} : t.isEmpty = true ↔ ∀ k, t.get? k = none := by
  constructor
  · intro h k
    have ht : t.entries = [] := List.isEmpty_iff.1 h
    rw [get?, ht, Entries.lookup_nil]
  · intro h
    obtain rfl : t = empty := ext_get? h
    rfl

/-- Where members go by keys of their own, each is found under its key. -/
theorem get?_ofList_map {key : ν → κ} {xs : List ν} (h : (xs.map key).Nodup) {k : κ} {x : ν} :
    (ofList (xs.map fun x => (key x, x))).get? k = some x ↔ x ∈ xs ∧ key x = k := by
  have hkeys : ((xs.map fun x => (key x, x)).map Prod.fst).Nodup := by
    rw [List.map_map]
    exact h
  have hperm := Entries.ofList_perm hkeys
  rw [get?_eq_some_iff]
  change (k, x) ∈ Entries.ofList _ ↔ _
  rw [hperm.mem_iff, List.mem_map]
  constructor
  · rintro ⟨y, hy, heq⟩
    obtain ⟨rfl, rfl⟩ := Prod.mk.inj heq
    exact ⟨hy, rfl⟩
  · rintro ⟨hx, rfl⟩
    exact ⟨x, hx, rfl⟩

variable [DecidableEq κ]

theorem get?_insert (t : Table κ ν) (k : κ) (v : ν) (k' : κ) :
    (t.insert k v).get? k' = if k' = k then some v else t.get? k' := by
  by_cases hk : k' = k
  · subst hk
    rw [if_pos rfl, get?_insert_self]
  · rw [if_neg hk, get?_insert_of_ne]
    intro he
    exact hk (Std.LawfulEqCmp.eq_of_compare he)

theorem get?_erase_eq (t : Table κ ν) (k k' : κ) :
    (t.erase k).get? k' = if k' = k then none else t.get? k' := by
  rw [get?_erase]
  by_cases hk : k' = k
  · subst hk
    rw [if_pos rfl, if_pos Std.ReflCmp.compare_self]
  · rw [if_neg hk, if_neg]
    intro he
    exact hk (Std.LawfulEqCmp.eq_of_compare he).symm

theorem contains_insert (t : Table κ ν) (k : κ) (v : ν) (k' : κ) :
    (t.insert k v).contains k' = (decide (k' = k) || t.contains k') := by
  rw [contains, get?_insert]
  by_cases hk : k' = k <;> simp [hk, contains]

theorem contains_erase (t : Table κ ν) (k k' : κ) :
    (t.erase k).contains k' = (!decide (k' = k) && t.contains k') := by
  rw [contains, get?_erase_eq]
  by_cases hk : k' = k <;> simp [hk, contains]

theorem insert_insert (t : Table κ ν) (k : κ) (v w : ν) :
    (t.insert k v).insert k w = t.insert k w := by
  apply ext_get?
  intro k'
  rw [get?_insert, get?_insert, get?_insert]
  split <;> rfl

theorem erase_insert {t : Table κ ν} {k : κ} (h : t.get? k = none) (v : ν) :
    (t.insert k v).erase k = t := by
  apply ext_get?
  intro k'
  rw [get?_erase_eq, get?_insert]
  split
  case isTrue heq => rw [heq, h]
  case isFalse => rfl

theorem get?_foldl_insert (es : List (κ × ν)) (hn : (es.map Prod.fst).Nodup) (t : Table κ ν)
    (k : κ) : (es.foldl (fun t e => t.insert e.1 e.2) t).get? k =
      (Entries.lookup k es).or (t.get? k) := by
  induction es generalizing t with
  | nil => rfl
  | cons e es ih =>
    obtain ⟨hfresh, hn⟩ := List.nodup_cons.1 hn
    rw [List.foldl_cons, ih hn, get?_insert]
    by_cases hk : k = e.1
    · subst hk
      have hnone : Entries.lookup e.1 es = none :=
        Entries.lookup_eq_none_of_forall fun e' he' heq =>
          hfresh (List.mem_map.2 ⟨e', he', (Std.LawfulEqCmp.eq_of_compare heq).symm⟩)
      simp [Entries.lookup, hnone, Std.ReflCmp.compare_self]
    · have hne : compare k e.1 ≠ .eq := fun he => hk (Std.LawfulEqCmp.eq_of_compare he)
      simp [Entries.lookup, hne, hk]

/-- The entries of the second table cover those of the first. -/
theorem get?_merge (t u : Table κ ν) (k : κ) : (t.merge u).get? k = (u.get? k).or (t.get? k) :=
  get?_foldl_insert u.entries u.nodup_keys t k

theorem merge_of_isEmpty {t u : Table κ ν} (h : u.isEmpty = true) : t.merge u = t := by
  apply ext_get?
  intro k
  rw [get?_merge, isEmpty_iff.1 h, Option.none_or]

end Table

namespace KeySet

variable {κ : Type u} [Ord κ] [Std.TransOrd κ] [Std.LawfulEqOrd κ]

theorem ext_contains {s t : KeySet κ} (h : ∀ k, Table.contains s k = Table.contains t k) :
    s = t := by
  apply Table.ext_get?
  intro k
  have hk := h k
  unfold Table.contains at hk
  cases hs : Table.get? s k <;> cases ht : Table.get? t k <;> rw [hs, ht] at hk
  · cases hk
  · cases hk

variable [DecidableEq κ]

theorem contains_add (s : KeySet κ) (k k' : κ) :
    Table.contains (s.add k) k' = (decide (k' = k) || Table.contains s k') :=
  Table.contains_insert s k () k'

theorem contains_erase (s : KeySet κ) (k k' : κ) :
    Table.contains (Table.erase s k) k' = (!decide (k' = k) && Table.contains s k') :=
  Table.contains_erase s k k'

end KeySet
end ObjectSpace
