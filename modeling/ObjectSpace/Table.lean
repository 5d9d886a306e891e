import ObjectSpace.Ordered

/-!
# Tables

A table is a finite map held as its entries in strictly increasing key order. Every map has one
such list, so two tables are equal exactly when they hold the same entries, and walking a table
meets the keys in order. The functions under `Entries` work on the bare list; they serve the types
that nest inside themselves and cannot carry the proof.
-/

namespace ObjectSpace

namespace Entries

variable {κ : Type u} {ν : Type v} [Ord κ]

/-- The keys are strictly increasing. -/
def Increasing (es : List (κ × ν)) : Prop :=
  es.Pairwise fun a b => compare a.1 b.1 = .lt

instance (es : List (κ × ν)) : Decidable (Increasing es) :=
  inferInstanceAs (Decidable (es.Pairwise _))

def lookup (k : κ) : List (κ × ν) → Option ν
  | [] => none
  | (k', v) :: es => if compare k k' = .eq then some v else lookup k es

/-- A value already held under the key is replaced. -/
def insert (k : κ) (v : ν) : List (κ × ν) → List (κ × ν)
  | [] => [(k, v)]
  | (k', v') :: es =>
    match compare k k' with
    | .lt => (k, v) :: (k', v') :: es
    | .eq => (k', v) :: es
    | .gt => (k', v') :: insert k v es

def erase (k : κ) (es : List (κ × ν)) : List (κ × ν) :=
  es.filter fun e => compare k e.1 != .eq

/-- Of several entries with one key the last wins. -/
def ofList (es : List (κ × ν)) : List (κ × ν) :=
  es.foldl (fun t e => insert e.1 e.2 t) []

theorem mem_insert_imp {k : κ} {v : ν} {es : List (κ × ν)} {e : κ × ν}
    (h : e ∈ insert k v es) : compare k e.1 = .eq ∨ e.1 = k ∨ e ∈ es := by
  induction es with
  | nil => simp_all [insert]
  | cons e' es ih =>
    unfold insert at h
    split at h
    · rcases List.mem_cons.1 h with rfl | h
      · exact .inr (.inl rfl)
      · exact .inr (.inr h)
    case h_2 hk =>
      rcases List.mem_cons.1 h with rfl | h
      · exact .inl hk
      · exact .inr (.inr (List.mem_cons_of_mem _ h))
    · rcases List.mem_cons.1 h with rfl | h
      · exact .inr (.inr List.mem_cons_self)
      · exact (ih h).imp_right (Or.imp_right (List.mem_cons_of_mem _))

theorem increasing_insert [Std.TransOrd κ] {k : κ} {v : ν} {es : List (κ × ν)}
    (h : Increasing es) : Increasing (insert k v es) := by
  induction es with
  | nil => simp [insert, Increasing]
  | cons e es ih =>
    obtain ⟨he, hes⟩ := List.pairwise_cons.1 h
    unfold insert
    split
    case h_1 hk =>
      refine List.pairwise_cons.2 ⟨fun x hx => ?_, h⟩
      rcases List.mem_cons.1 hx with rfl | hx
      · exact hk
      · exact Std.TransCmp.lt_trans hk (he x hx)
    case h_2 => exact List.pairwise_cons.2 ⟨fun x hx => he x hx, hes⟩
    case h_3 hk =>
      refine List.pairwise_cons.2 ⟨fun x hx => ?_, ih hes⟩
      have hlt : compare e.1 k = .lt := Std.OrientedCmp.lt_of_gt hk
      rcases mem_insert_imp hx with hx | hx | hx
      · exact Std.TransCmp.lt_of_lt_of_eq hlt hx
      · exact hx ▸ hlt
      · exact he x hx

theorem increasing_ofList [Std.TransOrd κ] (es : List (κ × ν)) : Increasing (ofList es) := by
  suffices ∀ t : List (κ × ν), Increasing t →
      Increasing (es.foldl (fun t e => insert e.1 e.2 t) t) from this [] List.Pairwise.nil
  induction es with
  | nil => exact fun _ h => h
  | cons e es ih => exact fun t h => ih _ (increasing_insert h)

@[simp] theorem lookup_nil (k : κ) : lookup k ([] : List (κ × ν)) = none := rfl

@[simp] theorem lookup_insert_self [Std.ReflOrd κ] (k : κ) (v : ν) (es : List (κ × ν)) :
    lookup k (insert k v es) = some v := by
  induction es with
  | nil => simp [insert, lookup, Std.ReflCmp.compare_self]
  | cons e es ih =>
    unfold insert
    split <;> simp_all [lookup, Std.ReflCmp.compare_self]

theorem lookup_insert_of_ne [Std.TransOrd κ] {k k' : κ} (v : ν) (es : List (κ × ν))
    (h : compare k' k ≠ .eq) : lookup k' (insert k v es) = lookup k' es := by
  induction es with
  | nil => simp [insert, lookup, h]
  | cons e es ih =>
    unfold insert
    split
    · simp [lookup, h]
    case h_2 hk =>
      have : compare k' e.1 ≠ .eq := fun he =>
        h (Std.TransCmp.eq_trans he (Std.OrientedCmp.eq_symm hk))
      simp [lookup, this]
    · simp [lookup, ih]

theorem lookup_erase [Std.TransOrd κ] (k k' : κ) (es : List (κ × ν)) :
    lookup k' (erase k es) = if compare k k' = .eq then none else lookup k' es := by
  induction es with
  | nil => simp [erase]
  | cons e es ih =>
    simp only [erase] at ih ⊢
    by_cases hk : compare k e.1 = .eq
    · rw [List.filter_cons_of_neg (by simp [hk]), ih]
      by_cases hkk : compare k k' = .eq
      · simp [hkk]
      · have : compare k' e.1 ≠ .eq := fun he =>
          hkk (Std.TransCmp.eq_trans hk (Std.OrientedCmp.eq_symm he))
        simp [hkk, lookup, this]
    · rw [List.filter_cons_of_pos (by simp [hk])]
      by_cases hke : compare k' e.1 = .eq
      · have : compare k k' ≠ .eq := fun he => hk (Std.TransCmp.eq_trans he hke)
        simp [lookup, hke, this]
      · simp [lookup, hke, ih]

theorem mem_of_lookup [Std.LawfulEqOrd κ] {k : κ} {v : ν} {es : List (κ × ν)}
    (h : lookup k es = some v) : (k, v) ∈ es := by
  induction es with
  | nil => simp at h
  | cons e es ih =>
    unfold lookup at h
    split at h
    case isTrue hk =>
      obtain rfl := Std.LawfulEqCmp.eq_of_compare hk
      cases h
      exact List.mem_cons_self
    case isFalse => exact List.mem_cons_of_mem _ (ih h)

end Entries

/-- A finite map with ordered keys. -/
structure Table (κ : Type u) (ν : Type v) [Ord κ] where
  entries : List (κ × ν)
  increasing : Entries.Increasing entries
  deriving DecidableEq

namespace Table

variable {κ : Type u} {ν : Type v} [Ord κ]

def empty : Table κ ν := ⟨[], List.Pairwise.nil⟩

instance : Inhabited (Table κ ν) := ⟨empty⟩
instance : EmptyCollection (Table κ ν) := ⟨empty⟩

def get? (t : Table κ ν) (k : κ) : Option ν := Entries.lookup k t.entries
def contains (t : Table κ ν) (k : κ) : Bool := (t.get? k).isSome
def size (t : Table κ ν) : Nat := t.entries.length
def isEmpty (t : Table κ ν) : Bool := t.entries.isEmpty
def keys (t : Table κ ν) : List κ := t.entries.map (·.1)
def values (t : Table κ ν) : List ν := t.entries.map (·.2)

def insert [Std.TransOrd κ] (t : Table κ ν) (k : κ) (v : ν) : Table κ ν :=
  ⟨Entries.insert k v t.entries, Entries.increasing_insert t.increasing⟩

def erase (t : Table κ ν) (k : κ) : Table κ ν :=
  ⟨Entries.erase k t.entries, t.increasing.sublist List.filter_sublist⟩

def filter (t : Table κ ν) (p : κ → ν → Bool) : Table κ ν :=
  ⟨t.entries.filter fun e => p e.1 e.2, t.increasing.sublist List.filter_sublist⟩

def mapValues (f : ν → μ) (t : Table κ ν) : Table κ μ :=
  ⟨t.entries.map fun e => (e.1, f e.2), by
    rw [Entries.Increasing, List.pairwise_map]
    exact t.increasing⟩

/-- Of several entries with one key the last wins. -/
def ofList [Std.TransOrd κ] (es : List (κ × ν)) : Table κ ν :=
  ⟨Entries.ofList es, Entries.increasing_ofList es⟩

/-- All the entries of `u`, and those of `t` whose key `u` does not have. -/
def merge [Std.TransOrd κ] (t u : Table κ ν) : Table κ ν :=
  u.entries.foldl (fun t e => t.insert e.1 e.2) t

@[ext] theorem ext_entries {t u : Table κ ν} (h : t.entries = u.entries) : t = u := by
  cases t; cases u; cases h; rfl

@[simp] theorem get?_empty (k : κ) : (empty : Table κ ν).get? k = none := rfl

@[simp] theorem get?_insert_self [Std.TransOrd κ] (t : Table κ ν) (k : κ) (v : ν) :
    (t.insert k v).get? k = some v := Entries.lookup_insert_self k v t.entries

theorem get?_insert_of_ne [Std.TransOrd κ] (t : Table κ ν) {k k' : κ} (v : ν)
    (h : compare k' k ≠ .eq) : (t.insert k v).get? k' = t.get? k' :=
  Entries.lookup_insert_of_ne v t.entries h

theorem get?_erase [Std.TransOrd κ] (t : Table κ ν) (k k' : κ) :
    (t.erase k).get? k' = if compare k k' = .eq then none else t.get? k' :=
  Entries.lookup_erase k k' t.entries

end Table

/-- A finite set with ordered members. -/
abbrev KeySet (κ : Type u) [Ord κ] := Table κ Unit

namespace KeySet

variable {κ : Type u} [Ord κ]

def add [Std.TransOrd κ] (s : KeySet κ) (k : κ) : KeySet κ := Table.insert s k ()

end KeySet
end ObjectSpace
