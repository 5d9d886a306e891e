import Mathlib.Data.List.Forall2
import Mathlib.Data.List.Induction
import Mathlib.Data.List.Pairwise
import Mathlib.Data.List.Sort
import ObjectSpace.Table

/-!
# Sorting, searching, and lists of entries

Sorting rearranges and puts in order; where no neighbours are equal afterwards the order is strict,
and a search then finds a member exactly if it is there. A list of entries in strict key order is
determined by the entries it holds, so a lookup finds an entry exactly if it is there, and building
a table out of entries with different keys only rearranges them.
-/

namespace ObjectSpace

namespace Ordered

variable {α : Type u} {cmp : α → α → Ordering}

theorem place_perm (x : α) (ys : List α) : (place cmp x ys).Perm (x :: ys) := by
  induction ys with
  | nil => exact .refl _
  | cons y ys ih =>
    unfold place
    split
    · exact (ih.cons y).trans (.swap x y ys)
    · exact .refl _

theorem sort_perm (xs : List α) : (sort cmp xs).Perm xs := by
  induction xs with
  | nil => exact .refl _
  | cons x xs ih => exact (place_perm x _).trans (ih.cons x)

theorem pairwise_place [Std.TransCmp cmp] {x : α} {ys : List α}
    (h : ys.Pairwise fun a b => cmp a b ≠ .gt) :
    (place cmp x ys).Pairwise fun a b => cmp a b ≠ .gt := by
  induction ys with
  | nil => simp [place]
  | cons y ys ih =>
    obtain ⟨hy, hys⟩ := List.pairwise_cons.1 h
    unfold place
    split
    case isTrue hxy =>
      refine List.pairwise_cons.2 ⟨fun z hz => ?_, ih hys⟩
      rcases (mem_place cmp).1 hz with rfl | hz
      · rw [Std.OrientedCmp.lt_of_gt hxy]
        decide
      · exact hy z hz
    case isFalse hxy =>
      refine List.pairwise_cons.2 ⟨fun z hz => ?_, h⟩
      rcases List.mem_cons.1 hz with rfl | hz
      · exact hxy
      · have hle := Std.TransCmp.isLE_trans (Ordering.isLE_iff_ne_gt.2 hxy)
          (Ordering.isLE_iff_ne_gt.2 (hy z hz))
        exact Ordering.isLE_iff_ne_gt.1 hle

theorem pairwise_sort [Std.TransCmp cmp] (xs : List α) :
    (sort cmp xs).Pairwise fun a b => cmp a b ≠ .gt := by
  induction xs with
  | nil => exact .nil
  | cons x xs ih => exact pairwise_place ih

theorem increasing_of_firstRepeat [Std.TransCmp cmp] {xs : List α}
    (h : xs.Pairwise fun a b => cmp a b ≠ .gt) (hr : firstRepeat cmp xs = none) :
    Increasing cmp xs := by
  induction xs with
  | nil => exact .nil
  | cons x xs ih =>
    obtain ⟨hx, hxs⟩ := List.pairwise_cons.1 h
    cases xs with
    | nil => exact List.pairwise_singleton _ _
    | cons y ys =>
      unfold firstRepeat at hr
      split at hr
      · cases hr
      case isFalse hne =>
        have hys := ih hxs hr
        have hxy : cmp x y = .lt := by
          have := hx y List.mem_cons_self
          cases hc : cmp x y <;> simp_all
        refine List.pairwise_cons.2 ⟨fun z hz => ?_, hys⟩
        rcases List.mem_cons.1 hz with rfl | hz
        · exact hxy
        · exact Std.TransCmp.lt_trans hxy ((List.pairwise_cons.1 hys).1 z hz)

theorem firstRepeat_of_increasing {xs : List α} (h : Increasing cmp xs) :
    firstRepeat cmp xs = none := by
  induction xs with
  | nil => rfl
  | cons x xs ih =>
    obtain ⟨hx, hxs⟩ := List.pairwise_cons.1 h
    cases xs with
    | nil => rfl
    | cons y ys =>
      have hxy : cmp x y = .lt := hx y List.mem_cons_self
      simp [firstRepeat, hxy, ih hxs]

theorem lt_or_lt_of_mem {xs : List α} (h : Increasing cmp xs) {a b : α} (ha : a ∈ xs)
    (hb : b ∈ xs) (hne : a ≠ b) : cmp a b = .lt ∨ cmp b a = .lt := by
  have hsymm : Std.Symm fun a b => cmp a b = .lt ∨ cmp b a = .lt := ⟨fun _ _ h => h.symm⟩
  have hor : xs.Pairwise fun a b => cmp a b = .lt ∨ cmp b a = .lt := h.imp Or.inl
  exact hor.forall ha hb hne

theorem sort_of_perm [Std.TransCmp cmp] {xs ys : List α} (h : xs.Perm ys)
    (hy : Increasing cmp ys) : sort cmp xs = ys := by
  have hp : (sort cmp xs).Perm ys := (sort_perm xs).trans h
  have hle : ys.Pairwise fun a b => cmp a b ≠ .gt := hy.imp fun hab => by rw [hab]; decide
  refine hp.eq_of_pairwise (fun a b ha hb hab hba => ?_) (pairwise_sort xs) hle
  by_contra hne
  rcases lt_or_lt_of_mem hy (hp.mem_iff.1 ha) hb hne with hlt | hlt
  · exact hba (Std.OrientedCmp.gt_of_lt hlt)
  · exact hab (Std.OrientedCmp.gt_of_lt hlt)

theorem add_of_lt {x : α} {ys : List α} (h : ∀ y ∈ ys, cmp x y = .lt) :
    add cmp x ys = x :: ys := by
  cases ys with
  | nil => rfl
  | cons y ys => simp [add, h y List.mem_cons_self]

theorem distinct_of_increasing {xs : List α} (h : Increasing cmp xs) : distinct cmp xs = xs := by
  induction xs with
  | nil => rfl
  | cons x xs ih =>
    obtain ⟨hx, hxs⟩ := List.pairwise_cons.1 h
    have hd : distinct cmp (x :: xs) = add cmp x (distinct cmp xs) := rfl
    rw [hd, ih hxs, add_of_lt hx]

theorem mem_of_mem_distinct {x : α} {xs : List α} (h : x ∈ distinct cmp xs) : x ∈ xs := by
  induction xs with
  | nil => exact h
  | cons y ys ih =>
    rcases mem_add_imp cmp h with rfl | h
    · exact List.mem_cons_self
    · exact List.mem_cons_of_mem _ (ih h)

theorem mem_add [Std.LawfulEqCmp cmp] {x y : α} {ys : List α} :
    y ∈ add cmp x ys ↔ y = x ∨ y ∈ ys := by
  refine ⟨mem_add_imp cmp, ?_⟩
  induction ys with
  | nil => simp [add]
  | cons z zs ih =>
    unfold add
    split
    · simp
    case h_2 hxz =>
      obtain rfl := Std.LawfulEqCmp.eq_of_compare hxz
      simp
    · rw [List.mem_cons, List.mem_cons]
      rintro (rfl | rfl | h)
      · exact .inr (ih (.inl rfl))
      · exact .inl rfl
      · exact .inr (ih (.inr h))

/-- Where the order tells all members apart, one that is left out is there once more. -/
theorem mem_distinct [Std.LawfulEqCmp cmp] {x : α} {xs : List α} :
    x ∈ distinct cmp xs ↔ x ∈ xs := by
  induction xs with
  | nil => exact .rfl
  | cons y ys ih =>
    have hstep : distinct cmp (y :: ys) = add cmp y (distinct cmp ys) := rfl
    rw [hstep, mem_add, ih, List.mem_cons]

theorem nodup_of_increasing [Std.ReflCmp cmp] {xs : List α} (h : Increasing cmp xs) :
    xs.Nodup := by
  refine h.imp fun {a b} hab he => ?_
  have hself : cmp b b = .eq := Std.ReflCmp.compare_self
  rw [he, hself] at hab
  cases hab

/-- A list in strict order is determined by its members. -/
theorem eq_of_mem_iff [Std.TransCmp cmp] {xs ys : List α} (hx : Increasing cmp xs)
    (hy : Increasing cmp ys) (h : ∀ a, a ∈ xs ↔ a ∈ ys) : xs = ys := by
  have hperm : xs.Perm ys :=
    (List.perm_ext_iff_of_nodup (nodup_of_increasing hx) (nodup_of_increasing hy)).2 h
  refine hperm.eq_of_pairwise (fun a b _ _ hab hba => ?_) hx hy
  rw [Std.OrientedCmp.gt_of_lt hba] at hab
  cases hab

/-- What is kept of a list hangs on its members alone, not on their order or their number. -/
theorem distinct_eq_iff [Std.TransCmp cmp] [Std.LawfulEqCmp cmp] {xs ys : List α} :
    distinct cmp xs = distinct cmp ys ↔ ∀ a, a ∈ xs ↔ a ∈ ys := by
  constructor
  · intro h a
    have hx : a ∈ distinct cmp xs ↔ a ∈ xs := mem_distinct
    rw [← hx, h, mem_distinct]
  · intro h
    refine eq_of_mem_iff (increasing_distinct cmp xs) (increasing_distinct cmp ys) fun a => ?_
    rw [mem_distinct, mem_distinct]
    exact h a

/-! ## Members with different keys -/

variable {κ : Type v} [Ord κ] [Std.TransOrd κ] [Std.LawfulEqOrd κ] {key : α → κ}

/-- Sorting by a key that tells the members apart puts them in strict order. -/
theorem increasing_sort {xs : List α} (h : (xs.map key).Nodup) :
    Increasing (compareOn key) (sort (compareOn key) xs) := by
  have hsorted : (sort (compareOn key) xs).Pairwise fun a b => compareOn key a b ≠ .gt :=
    pairwise_sort xs
  have hperm : (sort (compareOn key) xs).Perm xs := sort_perm xs
  have hdiffer := List.pairwise_map.1 ((hperm.map key).nodup_iff.2 h)
  refine (hsorted.and hdiffer).imp fun {a b} hab => ?_
  obtain ⟨hle, hne⟩ := hab
  cases hcmp : compareOn key a b with
  | lt => rfl
  | eq => exact absurd (Std.LawfulEqOrd.eq_of_compare hcmp) hne
  | gt => exact absurd hcmp hle

theorem searchWithin_eq_some_iff {n : Nat} {xs : List α} (h : Increasing (compareOn key) xs)
    (hn : xs.length ≤ n) {k : κ} {a : α} :
    searchWithin (fun x => compare (key x) k) n xs = some a ↔ a ∈ xs ∧ key a = k := by
  induction n generalizing xs with
  | zero =>
    obtain rfl := List.length_eq_zero_iff.1 (Nat.le_zero.1 hn)
    simp [searchWithin]
  | succ n ih =>
    have hsplit : xs.take (xs.length / 2) ++ xs.drop (xs.length / 2) = xs :=
      List.take_append_drop _ xs
    have hlength : (xs.drop (xs.length / 2)).length = xs.length - xs.length / 2 :=
      List.length_drop
    unfold searchWithin
    split
    case h_1 hempty =>
      rw [hempty, List.length_nil] at hlength
      obtain rfl := List.length_eq_zero_iff.1 (show xs.length = 0 by omega)
      simp
    case h_2 y ys hhigh =>
      rw [hhigh] at hsplit hlength
      rw [List.length_cons] at hlength
      have hlow : (xs.take (xs.length / 2)).length ≤ n := by
        rw [List.length_take]
        omega
      generalize xs.take (xs.length / 2) = low at hsplit hlow ⊢
      subst hsplit
      obtain ⟨hbelow, habove, hacross⟩ := List.pairwise_append.1 h
      obtain ⟨hy, hys⟩ := List.pairwise_cons.1 habove
      -- which part a member with the key can be in, by the side of `y` that the key is on
      have hpart : key a = k → (a ∈ low → compare (key y) k = .gt) ∧
          (a = y → compare (key y) k = .eq) ∧ (a ∈ ys → compare (key y) k = .lt) := by
        rintro rfl
        refine ⟨fun ha => ?_, ?_, fun ha => hy a ha⟩
        · exact Std.OrientedCmp.gt_of_lt (hacross a ha y List.mem_cons_self)
        · rintro rfl
          exact Std.ReflCmp.compare_self
      rw [List.mem_append, List.mem_cons]
      split
      case h_1 hlt =>
        rw [ih hys (by omega)]
        refine and_congr_left fun hk => ?_
        obtain ⟨hbefore, hself, -⟩ := hpart hk
        simp only [hlt, reduceCtorEq, imp_false] at hbefore hself
        rw [or_iff_right hbefore, or_iff_right hself]
      case h_2 heq =>
        rw [Option.some.injEq]
        constructor
        · rintro rfl
          exact ⟨.inr (.inl rfl), Std.LawfulEqCmp.eq_of_compare heq⟩
        · rintro ⟨ha, hk⟩
          obtain ⟨hbefore, -, hafter⟩ := hpart hk
          simp only [heq, reduceCtorEq, imp_false] at hbefore hafter
          exact ((ha.resolve_left hbefore).resolve_right hafter).symm
      case h_3 hgt =>
        rw [ih hbelow hlow]
        refine and_congr_left fun hk => ?_
        obtain ⟨-, hself, hafter⟩ := hpart hk
        simp only [hgt, reduceCtorEq, imp_false] at hself hafter
        rw [or_iff_left (not_or.2 ⟨hself, hafter⟩)]

/-- A search in a list that is kept in the order of a key finds the member with this key. -/
theorem search_eq_some_iff {xs : List α} (h : Increasing (compareOn key) xs) {k : κ} {a : α} :
    search (fun x => compare (key x) k) xs = some a ↔ a ∈ xs ∧ key a = k :=
  searchWithin_eq_some_iff h (Nat.le_refl _)

end Ordered

namespace Entries

variable {κ : Type u} {ν : Type v} [Ord κ]

theorem nodup_keys_of_increasing [Std.ReflOrd κ] {es : List (κ × ν)} (h : Increasing es) :
    (es.map Prod.fst).Nodup := Ordered.nodup_of_increasing (List.pairwise_map.2 h)

/-- The order of a list of entries is one of its keys. -/
theorem increasing_of_keys {μ : Type w} {es : List (κ × ν)} {fs : List (κ × μ)}
    (h : es.map Prod.fst = fs.map Prod.fst) (hf : Increasing fs) : Increasing es := by
  have hkeys : (es.map Prod.fst).Pairwise fun a b => compare a b = .lt := by
    rw [h, List.pairwise_map]
    exact hf
  exact List.pairwise_map.1 hkeys

theorem lookup_eq_none_of_forall {k : κ} {es : List (κ × ν)}
    (h : ∀ e ∈ es, compare k e.1 ≠ .eq) : lookup k es = none := by
  induction es with
  | nil => rfl
  | cons e es ih =>
    obtain ⟨k', v⟩ := e
    rw [lookup, if_neg (h (k', v) List.mem_cons_self)]
    exact ih fun e he => h e (List.mem_cons_of_mem _ he)

theorem lookup_of_mem [Std.LawfulEqOrd κ] {k : κ} {v : ν} {es : List (κ × ν)}
    (hn : (es.map Prod.fst).Nodup) (h : (k, v) ∈ es) : lookup k es = some v := by
  induction es with
  | nil => cases h
  | cons e es ih =>
    obtain ⟨k', v'⟩ := e
    obtain ⟨hk, hn⟩ := List.nodup_cons.1 hn
    rcases List.mem_cons.1 h with he | hmem
    · obtain ⟨rfl, rfl⟩ := Prod.mk.inj he
      rw [lookup, if_pos Std.ReflOrd.compare_self]
    · have hne : compare k k' ≠ .eq := fun he => by
        obtain rfl := Std.LawfulEqCmp.eq_of_compare he
        exact hk (List.mem_map.2 ⟨(k, v), hmem, rfl⟩)
      rw [lookup, if_neg hne]
      exact ih hn hmem

theorem lookup_eq_some_iff [Std.LawfulEqOrd κ] {k : κ} {v : ν} {es : List (κ × ν)}
    (hn : (es.map Prod.fst).Nodup) : lookup k es = some v ↔ (k, v) ∈ es :=
  ⟨mem_of_lookup, lookup_of_mem hn⟩

/-! ## Building a table -/

theorem insert_perm {k : κ} (v : ν) {es : List (κ × ν)} (h : ∀ e ∈ es, compare k e.1 ≠ .eq) :
    (insert k v es).Perm ((k, v) :: es) := by
  induction es with
  | nil => exact .refl _
  | cons e es ih =>
    unfold insert
    split
    · exact .refl _
    case h_2 hk => exact absurd hk (h e List.mem_cons_self)
    · exact ((ih fun x hx => h x (List.mem_cons_of_mem _ hx)).cons e).trans (.swap _ _ _)

theorem foldl_insert_perm [Std.LawfulEqOrd κ] {es t : List (κ × ν)}
    (hn : ((es ++ t).map Prod.fst).Nodup) :
    (es.foldl (fun t e => insert e.1 e.2 t) t).Perm (es ++ t) := by
  induction es generalizing t with
  | nil => exact .refl _
  | cons e es ih =>
    rw [List.cons_append, List.map_cons, List.nodup_cons] at hn
    have hfresh : ∀ x ∈ t, compare e.1 x.1 ≠ .eq := fun x hx he => by
      refine hn.1 (List.mem_map.2 ⟨x, List.mem_append_right _ hx, ?_⟩)
      exact (Std.LawfulEqCmp.eq_of_compare he).symm
    have hins : (insert e.1 e.2 t).Perm (e :: t) := insert_perm e.2 hfresh
    have hmid : (es ++ insert e.1 e.2 t).Perm (e :: (es ++ t)) :=
      (hins.append_left es).trans List.perm_middle
    have hn' : ((es ++ insert e.1 e.2 t).map Prod.fst).Nodup :=
      ((hmid.map Prod.fst).nodup_iff).2 (List.nodup_cons.2 hn)
    exact (ih hn').trans hmid

theorem ofList_perm [Std.LawfulEqOrd κ] {es : List (κ × ν)} (hn : (es.map Prod.fst).Nodup) :
    (ofList es).Perm es := by
  have h : (ofList es).Perm (es ++ []) := foldl_insert_perm (by rwa [List.append_nil])
  rwa [List.append_nil] at h

theorem eq_of_perm [Std.TransOrd κ] {es fs : List (κ × ν)} (h : es.Perm fs)
    (he : Increasing es) (hf : Increasing fs) : es = fs := by
  refine h.eq_of_pairwise (fun a b _ _ hab hba => ?_) he hf
  rw [Std.OrientedCmp.gt_of_lt hba] at hab
  cases hab

/-- Entries that are rearranged give the table they were. -/
theorem ofList_of_perm [Std.TransOrd κ] [Std.LawfulEqOrd κ] {es fs : List (κ × ν)}
    (h : es.Perm fs) (hf : Increasing fs) : ofList es = fs := by
  have hn : (es.map Prod.fst).Nodup :=
    ((h.map Prod.fst).nodup_iff).2 (nodup_keys_of_increasing hf)
  exact eq_of_perm ((ofList_perm hn).trans h) (increasing_ofList es) hf

theorem lookup_ofList_of_mem [Std.LawfulEqOrd κ] {k : κ} {v : ν} {es : List (κ × ν)}
    (hn : (es.map Prod.fst).Nodup) (h : (k, v) ∈ es) : lookup k (ofList es) = some v := by
  have hp : (ofList es).Perm es := ofList_perm hn
  exact lookup_of_mem (((hp.map Prod.fst).nodup_iff).2 hn) (hp.mem_iff.2 h)

/-- The entry is there, and no entry behind it has its key. -/
def IsLast {α β : Type*} (k : α) (v : β) (es : List (α × β)) : Prop :=
  ∃ before after, es = before ++ (k, v) :: after ∧ k ∉ after.map Prod.fst

theorem isLast_concat {α β : Type*} {k : α} {v : β} {es : List (α × β)} {e : α × β} :
    IsLast k v (es ++ [e]) ↔ (k, v) = e ∨ k ≠ e.1 ∧ IsLast k v es := by
  constructor
  · rintro ⟨before, after, hes, hnew⟩
    rcases List.eq_nil_or_concat after with rfl | ⟨after, e', rfl⟩
    · exact .inl (List.cons.inj (List.append_inj' hes rfl).2).1.symm
    · rw [List.concat_eq_append, ← List.cons_append, ← List.append_assoc] at hes
      obtain ⟨rfl, he⟩ := List.append_inj' hes rfl
      obtain rfl := (List.cons.inj he).1
      rw [List.concat_eq_append, List.map_append, List.mem_append, not_or] at hnew
      exact .inr ⟨fun h => hnew.2 (h ▸ List.mem_singleton_self _), before, after, rfl, hnew.1⟩
  · rintro (rfl | ⟨hne, before, after, rfl, hnew⟩)
    · exact ⟨es, [], rfl, List.not_mem_nil⟩
    · refine ⟨before, after ++ [e], by simp, ?_⟩
      simp [hnew, hne]

/-- An entry whose key has no other value is the last with this key. -/
theorem isLast_of_mem {α β : Type*} {k : α} {v : β} {es : List (α × β)} (h : (k, v) ∈ es)
    (hu : ∀ w, (k, w) ∈ es → w = v) : IsLast k v es := by
  induction es using List.reverseRecOn with
  | nil => cases h
  | append_singleton es e ih =>
    rw [isLast_concat]
    by_cases he : (k, v) = e
    · exact .inl he
    · have hne : k ≠ e.1 := by
        rintro rfl
        exact he (Prod.ext rfl (hu e.2 (by simp)).symm)
      have hmem : (k, v) ∈ es := by simpa [he] using h
      exact .inr ⟨hne, ih hmem fun w hw => hu w (List.mem_append_left _ hw)⟩

theorem mem_insert_iff [Std.TransOrd κ] [Std.LawfulEqOrd κ] {k : κ} {v : ν}
    {es : List (κ × ν)} {e : κ × ν} (h : Increasing es) :
    e ∈ insert k v es ↔ e = (k, v) ∨ e.1 ≠ k ∧ e ∈ es := by
  obtain ⟨k', v'⟩ := e
  rw [← lookup_eq_some_iff (nodup_keys_of_increasing (increasing_insert h)),
    ← lookup_eq_some_iff (nodup_keys_of_increasing h)]
  by_cases hk : k' = k
  · subst hk
    rw [lookup_insert_self]
    simp [eq_comm]
  · have hne : compare k' k ≠ .eq := fun he => hk (Std.LawfulEqCmp.eq_of_compare he)
    rw [lookup_insert_of_ne v es hne]
    simp [hk]

/-- A table that is built holds for each key the value of its last entry. -/
theorem mem_ofList_iff [Std.TransOrd κ] [Std.LawfulEqOrd κ] {k : κ} {v : ν}
    {es : List (κ × ν)} : (k, v) ∈ ofList es ↔ IsLast k v es := by
  induction es using List.reverseRecOn with
  | nil => simp [ofList, IsLast]
  | append_singleton es e ih =>
    have hlast : ofList (es ++ [e]) = insert e.1 e.2 (ofList es) := List.foldl_concat _ _ _ _
    rw [hlast, mem_insert_iff (increasing_ofList es), isLast_concat, ih]

theorem lookup_ofList_iff [Std.TransOrd κ] [Std.LawfulEqOrd κ] {k : κ} {v : ν}
    {es : List (κ × ν)} : lookup k (ofList es) = some v ↔ IsLast k v es := by
  rw [lookup_eq_some_iff (nodup_keys_of_increasing (increasing_ofList es)), mem_ofList_iff]

theorem IsLast.unique [Std.TransOrd κ] [Std.LawfulEqOrd κ] {k : κ} {v w : ν}
    {es : List (κ × ν)} (hv : IsLast k v es) (hw : IsLast k w es) : v = w :=
  Option.some.inj ((lookup_ofList_iff.2 hv).symm.trans (lookup_ofList_iff.2 hw))

theorem mem_of_mem_insert {k : κ} {v : ν} {es : List (κ × ν)} {e : κ × ν}
    (h : e ∈ insert k v es) : e.2 = v ∨ e ∈ es := by
  induction es with
  | nil => simp_all [insert]
  | cons e' es ih =>
    unfold insert at h
    split at h
    · rcases List.mem_cons.1 h with rfl | h
      · exact .inl rfl
      · exact .inr h
    · rcases List.mem_cons.1 h with rfl | h
      · exact .inl rfl
      · exact .inr (List.mem_cons_of_mem _ h)
    · rcases List.mem_cons.1 h with rfl | h
      · exact .inr List.mem_cons_self
      · exact (ih h).imp_right (List.mem_cons_of_mem _)

/-- A table holds no value that was not in the list. -/
theorem exists_mem_of_mem_ofList {es : List (κ × ν)} {e : κ × ν} (h : e ∈ ofList es) :
    ∃ e' ∈ es, e'.2 = e.2 := by
  suffices ∀ t : List (κ × ν), e ∈ es.foldl (fun t e => insert e.1 e.2 t) t →
      (∃ e' ∈ es, e'.2 = e.2) ∨ e ∈ t by
    rcases this [] h with h | h
    · exact h
    · cases h
  clear h
  induction es with
  | nil => exact fun t h => .inr h
  | cons x es ih =>
    intro t h
    rcases ih _ h with ⟨e', he', hv⟩ | h
    · exact .inl ⟨e', List.mem_cons_of_mem _ he', hv⟩
    · rcases mem_of_mem_insert h with hv | h
      · exact .inl ⟨x, List.mem_cons_self, hv.symm⟩
      · exact .inr h

/-- Two lists of entries with the same keys in the same places, and related values. -/
def Related (R : ν → μ → Prop) : List (κ × ν) → List (κ × μ) → Prop :=
  List.Forall₂ fun e f => e.1 = f.1 ∧ R e.2 f.2

theorem related_insert {R : ν → μ → Prop} {k : κ} {v : ν} {w : μ} (hvw : R v w)
    {es : List (κ × ν)} {fs : List (κ × μ)} (h : Related R es fs) :
    Related R (insert k v es) (insert k w fs) := by
  induction h with
  | nil => exact .cons ⟨rfl, hvw⟩ .nil
  | @cons e f es fs hef h ih =>
    obtain ⟨k₁, v₁⟩ := e
    obtain ⟨k₂, w₂⟩ := f
    obtain ⟨rfl, hv⟩ := hef
    simp only [insert]
    cases compare k k₁ with
    | lt => exact .cons ⟨rfl, hvw⟩ (.cons ⟨rfl, hv⟩ h)
    | eq => exact .cons ⟨rfl, hvw⟩ h
    | gt => exact .cons ⟨rfl, hv⟩ ih

theorem related_ofList {R : ν → μ → Prop} {es : List (κ × ν)} {fs : List (κ × μ)}
    (h : Related R es fs) : Related R (ofList es) (ofList fs) := by
  suffices ∀ t u, Related R t u → Related R (es.foldl (fun t e => insert e.1 e.2 t) t)
      (fs.foldl (fun t e => insert e.1 e.2 t) u) from this [] [] .nil
  induction h with
  | nil => exact fun _ _ h => h
  | @cons e f es fs hef h ih =>
    intro t u htu
    obtain ⟨k₁, v₁⟩ := e
    obtain ⟨k₂, w₂⟩ := f
    obtain ⟨rfl, hv⟩ := hef
    exact ih _ _ (related_insert hv htu)

end Entries
end ObjectSpace
