import Mathlib.Data.List.Forall2
import ObjectSpace.Proofs.Binary64.Round
import ObjectSpace.Proofs.Ordered
import ObjectSpace.Proofs.Value.Within

/-!
# Equality up to the sign of zero

A value without a NaN is the same as itself. `Agrees` is equality where order matters and sameness
elsewhere; it goes through all kinds of values that hold others.
-/

namespace ObjectSpace

theorem Binary64.same_self {x : Binary64} (h : x.isFinite = true) : x.same x = true := by
  have hlt : x.magnitude < limit := of_decide_eq_true h
  have hnan : x.isNaN = false := decide_eq_false (by omega)
  simp [Binary64.same, hnan]

namespace Value

/-- All numbers in the value are finite. -/
def IsFinite (v : Value) : Prop := ∀ x, Within (.float x) v → x.isFinite = true

mutual

theorem same_self {v : Value} (h : v.IsFinite) : v.same v = true := by
  cases v with
  | null => rfl
  | bool b => exact beq_self_eq_true b
  | int n => exact beq_self_eq_true n
  | float x => exact Binary64.same_self (h x .self)
  | str s => exact beq_self_eq_true s
  | bytes b => exact beq_self_eq_true b.data
  | instant t => exact beq_self_eq_true t
  | uuid u => exact beq_self_eq_true u
  | ref id => exact beq_self_eq_true id
  | list items => exact sameItems_self fun v hv x hx => h x (.list hv hx)
  | set items => exact sameItems_self fun v hv x hx => h x (.set hv hx)
  | tuple items => exact sameItems_self fun v hv x hx => h x (.tuple hv hx)
  | map entries =>
    exact sameEntries_self (fun e he x hx => h x (.key he hx)) fun e he x hx => h x (.value he hx)
  | record members => exact sameMembers_self fun m hm x hx => h x (.member hm hx)
  termination_by structural v

theorem sameItems_self {vs : List Value} (h : ∀ v ∈ vs, v.IsFinite) : sameItems vs vs = true := by
  cases vs with
  | nil => rfl
  | cons v vs =>
    obtain ⟨hv, hvs⟩ := List.forall_mem_cons.1 h
    rw [sameItems, same_self hv, sameItems_self hvs]
    rfl
  termination_by structural vs

theorem sameEntries_self {es : List (Value × Value)} (hk : ∀ e ∈ es, e.1.IsFinite)
    (hv : ∀ e ∈ es, e.2.IsFinite) : sameEntries es es = true := by
  cases es with
  | nil => rfl
  | cons e es =>
    obtain ⟨k, v⟩ := e
    obtain ⟨hk, hks⟩ := List.forall_mem_cons.1 hk
    obtain ⟨hv, hvs⟩ := List.forall_mem_cons.1 hv
    rw [sameEntries, same_self hk, same_self hv, sameEntries_self hks hvs]
    rfl
  termination_by structural es

theorem sameMembers_self {ms : List (String × Value)} (h : ∀ m ∈ ms, m.2.IsFinite) :
    sameMembers ms ms = true := by
  cases ms with
  | nil => rfl
  | cons m ms =>
    obtain ⟨name, v⟩ := m
    obtain ⟨hv, hvs⟩ := List.forall_mem_cons.1 h
    rw [sameMembers, same_self hv, sameMembers_self hvs, beq_self_eq_true]
    rfl
  termination_by structural ms

end

/-! ## Values without negative zero -/

/-- No number in the value is negative zero. -/
def Unsigned (v : Value) : Prop := ¬ Within (.float .negativeZero) v

mutual

theorem eq_of_same {v w : Value} (h : v.same w = true) (hv : v.Unsigned) (hw : w.Unsigned) :
    v = w := by
  cases v <;> cases w <;> try cases h
  case null.null => rfl
  case bool.bool => rw [eq_of_beq h]
  case int.int => rw [eq_of_beq h]
  case float.float =>
    rw [Binary64.eq_of_same h (fun hx => hv (hx ▸ .self)) fun hy => hw (hy ▸ .self)]
  case str.str => rw [eq_of_beq h]
  case bytes.bytes a b => rw [ByteArray.ext (eq_of_beq h)]
  case instant.instant => rw [eq_of_beq h]
  case uuid.uuid => rw [eq_of_beq h]
  case ref.ref => rw [eq_of_beq h]
  case list.list as bs =>
    rw [eq_of_sameItems h (fun v hm hx => hv (.list hm hx)) fun v hm hx => hw (.list hm hx)]
  case set.set as bs =>
    rw [eq_of_sameItems h (fun v hm hx => hv (.set hm hx)) fun v hm hx => hw (.set hm hx)]
  case tuple.tuple as bs =>
    rw [eq_of_sameItems h (fun v hm hx => hv (.tuple hm hx)) fun v hm hx => hw (.tuple hm hx)]
  case map.map as bs =>
    rw [eq_of_sameEntries h (fun e he => ⟨fun hx => hv (.key he hx), fun hx => hv (.value he hx)⟩)
      fun e he => ⟨fun hx => hw (.key he hx), fun hx => hw (.value he hx)⟩]
  case record.record as bs =>
    rw [eq_of_sameMembers h (fun m hm hx => hv (.member hm hx)) fun m hm hx => hw (.member hm hx)]
  termination_by structural v

theorem eq_of_sameItems {vs ws : List Value} (h : sameItems vs ws = true)
    (hv : ∀ v ∈ vs, v.Unsigned) (hw : ∀ w ∈ ws, w.Unsigned) : vs = ws := by
  cases vs with
  | nil =>
    cases ws with
    | nil => rfl
    | cons => cases h
  | cons v vs =>
    cases ws with
    | nil => cases h
    | cons w ws =>
      obtain ⟨hsame, hrest⟩ := Bool.and_eq_true_iff.1 h
      obtain ⟨hv, hvs⟩ := List.forall_mem_cons.1 hv
      obtain ⟨hw, hws⟩ := List.forall_mem_cons.1 hw
      rw [eq_of_same hsame hv hw, eq_of_sameItems hrest hvs hws]
  termination_by structural vs

theorem eq_of_sameEntries {es fs : List (Value × Value)} (h : sameEntries es fs = true)
    (he : ∀ e ∈ es, e.1.Unsigned ∧ e.2.Unsigned) (hf : ∀ f ∈ fs, f.1.Unsigned ∧ f.2.Unsigned) :
    es = fs := by
  cases es with
  | nil =>
    cases fs with
    | nil => rfl
    | cons => cases h
  | cons e es =>
    cases fs with
    | nil => cases h
    | cons f fs =>
      obtain ⟨k, v⟩ := e
      obtain ⟨k', w⟩ := f
      obtain ⟨hsame, hrest⟩ := Bool.and_eq_true_iff.1 h
      obtain ⟨hkey, hvalue⟩ := Bool.and_eq_true_iff.1 hsame
      obtain ⟨⟨hk, hv⟩, hes⟩ := List.forall_mem_cons.1 he
      obtain ⟨⟨hk', hw⟩, hfs⟩ := List.forall_mem_cons.1 hf
      rw [eq_of_same hkey hk hk', eq_of_same hvalue hv hw, eq_of_sameEntries hrest hes hfs]
  termination_by structural es

theorem eq_of_sameMembers {ms ns : List (String × Value)} (h : sameMembers ms ns = true)
    (hm : ∀ m ∈ ms, m.2.Unsigned) (hn : ∀ n ∈ ns, n.2.Unsigned) : ms = ns := by
  cases ms with
  | nil =>
    cases ns with
    | nil => rfl
    | cons => cases h
  | cons m ms =>
    cases ns with
    | nil => cases h
    | cons n ns =>
      obtain ⟨k, v⟩ := m
      obtain ⟨k', w⟩ := n
      obtain ⟨hsame, hrest⟩ := Bool.and_eq_true_iff.1 h
      obtain ⟨hname, hvalue⟩ := Bool.and_eq_true_iff.1 hsame
      obtain ⟨hv, hms⟩ := List.forall_mem_cons.1 hm
      obtain ⟨hw, hns⟩ := List.forall_mem_cons.1 hn
      rw [eq_of_beq hname, eq_of_same hvalue hv hw, eq_of_sameMembers hrest hms hns]
  termination_by structural ms

end

/-! ## Agreement -/

/-- `exact` asks for the very value. -/
def Agrees (exact : Bool) (v w : Value) : Prop :=
  match exact with
  | true => v = w
  | false => v.same w = true

variable {exact : Bool}

theorem agrees_self {v : Value} (h : v.IsFinite) : Agrees exact v v := by
  cases exact with
  | true => rfl
  | false => exact same_self h

theorem agrees_items {vs ws : List Value} (h : List.Forall₂ (Agrees exact) vs ws) :
    (exact = true ∧ vs = ws) ∨ (exact = false ∧ sameItems vs ws = true) := by
  cases exact with
  | true => exact .inl ⟨rfl, List.forall₂_eq_eq_eq ▸ h⟩
  | false =>
    refine .inr ⟨rfl, ?_⟩
    induction h with
    | nil => rfl
    | cons hvw _ ih => exact Bool.and_eq_true_iff.2 ⟨hvw, ih⟩

theorem agrees_list {vs ws : List Value} (h : List.Forall₂ (Agrees exact) vs ws) :
    Agrees exact (list vs) (list ws) := by
  rcases agrees_items h with ⟨rfl, rfl⟩ | ⟨rfl, hs⟩
  · rfl
  · exact hs

theorem agrees_tuple {vs ws : List Value} (h : List.Forall₂ (Agrees exact) vs ws) :
    Agrees exact (tuple vs) (tuple ws) := by
  rcases agrees_items h with ⟨rfl, rfl⟩ | ⟨rfl, hs⟩
  · rfl
  · exact hs

theorem agrees_map {es fs : List (Value × Value)} (hk : ∀ f ∈ fs, f.1.IsFinite)
    (h : List.Forall₂ (fun e f => e.1 = f.1 ∧ Agrees exact e.2 f.2) es fs) :
    Agrees exact (map es) (map fs) := by
  cases exact with
  | true =>
    have heq : es = fs :=
      List.forall₂_eq_eq_eq ▸ h.imp fun _ _ hef => Prod.ext hef.1 hef.2
    exact congrArg map heq
  | false =>
    have hsame : sameEntries es fs = true := by
      induction h with
      | nil => rfl
      | @cons e f es fs hef _ ih =>
        obtain ⟨k, v⟩ := e
        obtain ⟨k', w⟩ := f
        obtain ⟨rfl, hvw⟩ := hef
        obtain ⟨hk, hks⟩ := List.forall_mem_cons.1 hk
        rw [sameEntries, same_self hk, ih hks, Bool.and_true, Bool.true_and]
        exact hvw
    exact hsame

theorem agrees_record {ms ns : List (String × Value)} (h : Entries.Related (Agrees exact) ms ns) :
    Agrees exact (record ms) (record ns) := by
  cases exact with
  | true =>
    have heq : ms = ns :=
      List.forall₂_eq_eq_eq ▸ h.imp fun _ _ hmn => Prod.ext hmn.1 hmn.2
    exact congrArg record heq
  | false =>
    have hsame : sameMembers ms ns = true := by
      induction h with
      | nil => rfl
      | @cons m n ms ns hmn _ ih =>
        obtain ⟨k, v⟩ := m
        obtain ⟨k', w⟩ := n
        obtain ⟨rfl, hvw⟩ := hmn
        rw [sameMembers, beq_self_eq_true, ih, Bool.and_true, Bool.true_and]
        exact hvw
    exact hsame

end Value
end ObjectSpace
