import ObjectSpace.Native
import ObjectSpace.Proofs.Shape.Canonical
import ObjectSpace.Proofs.Success

/-!
# Native values and back

What a native type makes into a value it reads back from it. Absence is written as null, so this
needs a type in which null says one thing only: an option of an option would be read back one level
short, and so would an option of the unit type. The numbers of a width are its machine words, and
widening a word to 64 bits keeps what it stands for.
-/

namespace ObjectSpace

open Success

namespace Width

/-! ## Machine words -/

def bits : Width → Nat
  | i8 | u8 => 8
  | i16 | u16 => 16
  | i32 | u32 => 32
  | i64 => 64

def isSigned : Width → Bool
  | i8 | i16 | i32 | i64 => true
  | u8 | u16 | u32 => false

/-- The number that the bits of a word stand for. -/
def number (w : Width) (x : BitVec w.bits) : Int := if w.isSigned then x.toInt else x.toNat

theorem low_eq (w : Width) : w.low = if w.isSigned then -2 ^ (w.bits - 1) else 0 := by
  cases w <;> rfl

theorem high_eq (w : Width) :
    w.high = if w.isSigned then 2 ^ (w.bits - 1) else 2 ^ w.bits := by
  cases w <;> rfl

theorem number_bounds (w : Width) (x : BitVec w.bits) :
    w.low ≤ w.number x ∧ w.number x < w.high := by
  rw [low_eq, high_eq, number]
  cases w.isSigned with
  | true => exact ⟨x.le_toInt, BitVec.toInt_lt⟩
  | false =>
    have hlt : (x.toNat : Int) < 2 ^ w.bits := by exact_mod_cast x.isLt
    exact ⟨Int.natCast_nonneg _, hlt⟩

theorem number_injective (w : Width) : Function.Injective w.number := by
  intro x y h
  unfold number at h
  cases hs : w.isSigned with
  | true =>
    rw [hs] at h
    exact BitVec.eq_of_toInt_eq h
  | false =>
    rw [hs] at h
    exact BitVec.eq_of_toNat_eq (Int.ofNat.inj h)

/-- Each number in the range has its word. -/
theorem exists_number {w : Width} {m : Int} (hlow : w.low ≤ m) (hhigh : m < w.high) :
    ∃ x, w.number x = m := by
  have hpos : 0 < w.bits := by cases w <;> decide
  rw [low_eq] at hlow
  rw [high_eq] at hhigh
  unfold number
  cases hs : w.isSigned with
  | true =>
    rw [hs] at hlow hhigh
    exact ⟨BitVec.ofInt w.bits m, BitVec.toInt_ofInt_eq_self hpos hlow hhigh⟩
  | false =>
    rw [hs] at hlow hhigh
    obtain ⟨k, rfl⟩ := Int.eq_ofNat_of_zero_le hlow
    have hlt : (k : Int) < 2 ^ w.bits := hhigh
    exact ⟨BitVec.ofNatLT k (by exact_mod_cast hlt), rfl⟩

theorem toInt_ofInt_number (w : Width) (x : BitVec w.bits) :
    (Int64.ofInt (w.number x)).toInt = w.number x := by
  obtain ⟨hlow, hhigh⟩ := w.number_bounds x
  have hrange : -2 ^ 63 ≤ w.low ∧ w.high ≤ 2 ^ 63 := by cases w <;> decide
  exact Int64.toInt_ofInt_of_le (by omega) (by omega)

/-- The word in 64 bits with sign. -/
def widen (w : Width) (x : BitVec w.bits) : { n : Int64 // w.Holds n } :=
  ⟨Int64.ofInt (w.number x), by
    rw [Holds, toInt_ofInt_number]
    exact w.number_bounds x⟩

/-- The numbers that fit the width are its words, each widened to a number of its own. -/
theorem widen_bijective (w : Width) : Function.Bijective w.widen := by
  constructor
  · intro x y h
    have hval : Int64.ofInt (w.number x) = Int64.ofInt (w.number y) := congrArg Subtype.val h
    apply w.number_injective
    rw [← toInt_ofInt_number, hval, toInt_ofInt_number]
  · rintro ⟨n, hlow, hhigh⟩
    obtain ⟨x, hx⟩ := exists_number hlow hhigh
    refine ⟨x, Subtype.ext ?_⟩
    change Int64.ofInt (w.number x) = n
    rw [hx, Int64.ofInt_toInt]

end Width

namespace Native

/-! ## Types in which null says one thing -/

/-- Scalars, and lists, maps and options of such types; an option is not one of an option. -/
inductive Definite : Native → Prop
  | bool : Definite bool
  | int (w : Width) : Definite (int w)
  | float : Definite float
  | str : Definite str
  | bytes : Definite bytes
  | instant : Definite instant
  | uuid : Definite uuid
  | identity : Definite identity
  | optional {inner : Native} :
      Definite inner → (∀ n, inner ≠ optional n) → Definite (optional inner)
  | list {element : Native} : Definite element → Definite (list element)
  | map {element : Native} : Definite element → Definite (map element)

variable {n : Native}

/-- Only options write null. -/
theorem toValue_ne_null (h : n.Definite) (hne : ∀ m, n ≠ optional m) (x : n.Carrier) :
    n.toValue x ≠ .null := by
  cases h with
  | optional _ _ => exact absurd rfl (hne _)
  | _ => nofun

theorem ofValue_optional {inner : Native} {v : Value} (h : v ≠ .null) :
    (optional inner).ofValue v = (inner.ofValue v).map some := by
  cases v with
  | null => exact absurd rfl h
  | _ => rfl

theorem ofValue_list {element : Native} (ih : ∀ x, element.ofValue (element.toValue x) = .ok x)
    (xs : List element.Carrier) :
    (list element).ofValue ((list element).toValue xs) = .ok xs := by
  apply eachAt_of_forall₂
  rw [List.forall₂_map_left_iff, List.forall₂_same]
  intro x _ k
  rw [ih]
  rfl

theorem ofValue_map {element : Native} (ih : ∀ x, element.ofValue (element.toValue x) = .ok x)
    (t : Table String element.Carrier) :
    (map element).ofValue ((map element).toValue t) = .ok t := by
  refine bind_eq_ok.2 ⟨_, rfl, bind_eq_ok.2 ⟨t.entries, ?_, ?_⟩⟩
  · rw [mapM_eq_ok, List.forall₂_map_left_iff, List.forall₂_same]
    rintro ⟨k, x⟩ _
    refine bind_eq_ok.2 ⟨x, mapError_eq_ok.2 (ih x), rfl⟩
  · exact congrArg Except.ok (Table.ext_entries (Entries.ofList_of_perm (.refl _) t.increasing))

theorem ofValue_toValue (h : n.Definite) (x : n.Carrier) : n.ofValue (n.toValue x) = .ok x := by
  induction h with
  | int w => exact dif_pos x.property
  | optional hinner hne ih =>
    cases x with
    | none => rfl
    | some x =>
      -- what the option holds is no option, so null is not how it is written
      change (optional _).ofValue (toValue _ x) = _
      rw [ofValue_optional (toValue_ne_null hinner hne x), ih]
      rfl
  | list _ ih => exact ofValue_list ih x
  | map _ ih => exact ofValue_map ih x
  | _ => rfl

/-- An option of an option does not keep its levels apart. -/
example : (optional (optional bool)).ofValue ((optional (optional bool)).toValue (some none)) =
    .ok none := rfl

theorem increasing_written {element : Native} (t : Table String element.Carrier) :
    Entries.Increasing (t.entries.map fun (k, x) => (Value.str k, element.toValue x)) :=
  List.pairwise_map.2 t.increasing

theorem isOrdered_toValue (h : n.Definite) (x : n.Carrier) : (n.toValue x).IsOrdered := by
  induction h with
  | optional _ _ ih =>
    cases x with
    | none => exact Shape.isOrdered_null
    | some x => exact ih x
  | list _ ih =>
    apply Value.isOrdered_list
    intro v hv
    obtain ⟨x, _, rfl⟩ := List.mem_map.1 hv
    exact ih x
  | map _ ih =>
    apply Value.isOrdered_map (increasing_written x)
    · intro e he
      obtain ⟨⟨k, _⟩, _, rfl⟩ := List.mem_map.1 he
      exact (Shape.Canonical.str k).isOrdered
    · intro e he
      obtain ⟨⟨_, y⟩, _, rfl⟩ := List.mem_map.1 he
      exact ih y
  | _ =>
    intro v hv
    cases hv
    trivial

/-- Values of a definite type are read back from what they are made into as they were, numbers bit
by bit, and the maps therein keep their keys in order. Whole numbers of a width are its machine
words; widening merges none of them. -/
theorem restored (h : n.Definite) (x : n.Carrier) :
    n.ofValue (n.toValue x) = .ok x ∧ (n.toValue x).IsOrdered ∧
      ∀ w : Width, Function.Bijective w.widen :=
  ⟨ofValue_toValue h x, isOrdered_toValue h x, Width.widen_bijective⟩

/-- Series of readings by the name of their place. A place may have no series, and a series gaps. -/
def readings : Native := map (optional (list (optional float)))

/-- A gap, no number, and a negative zero. -/
def series : List (Option Binary64) :=
  [none, some ⟨0x7ff8000000000001⟩, some (.ofMagnitude true 0)]

def threePlaces : readings.Carrier :=
  ⟨[("", none), ("a/b", some []), ("é", some series)], by decide⟩

theorem definite_readings : readings.Definite :=
  .map (.optional (.list (.optional .float nofun)) nofun)

theorem restored_threePlaces :
    readings.Definite ∧ readings.ofValue (readings.toValue threePlaces) = .ok threePlaces ∧
      (readings.toValue threePlaces).IsOrdered ∧ Function.Bijective (Width.widen .u32) ∧
      readings.toValue threePlaces = .map [(.str "", .null), (.str "a/b", .list []),
        (.str "é", .list [.null, .float ⟨0x7ff8000000000001⟩, .float (.ofMagnitude true 0)])] := by
  obtain ⟨hread, hordered, hwords⟩ := restored definite_readings threePlaces
  exact ⟨definite_readings, hread, hordered, hwords .u32, rfl⟩

end Native
end ObjectSpace
