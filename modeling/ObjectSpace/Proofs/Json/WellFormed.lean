import ObjectSpace.Json.Raw
import ObjectSpace.Proofs.Ordered

/-!
# Documents that can be held

All numbers of a document are finite, and its whole numbers are those of 64 bits. Every document
that is read out of text is of this kind.
-/

namespace ObjectSpace
namespace Json

inductive WellFormed : Json → Prop
  | null : WellFormed null
  | bool (b : Bool) : WellFormed (bool b)
  | int {n : Int} : isInt n = true → WellFormed (int n)
  | float {x : Binary64} : x.isFinite = true → WellFormed (float x)
  | str (s : String) : WellFormed (str s)
  | arr {items : List Json} : (∀ j ∈ items, WellFormed j) → WellFormed (arr items)
  | obj {members : List (String × Json)} :
      (∀ m ∈ members, WellFormed m.2) → WellFormed (obj members)

theorem isInt_natCast {n : Nat} (h : n < 2 ^ 64) : isInt n = true := by
  have hlow : minInt64 ≤ (n : Int) := (by decide : minInt64 ≤ 0).trans (Int.natCast_nonneg n)
  have hhigh : (n : Int) < 2 ^ 64 := by exact_mod_cast h
  rw [isInt, decide_eq_true hlow, decide_eq_true hhigh]
  rfl

theorem WellFormed.natAbs_lt {n : Int} (h : WellFormed (Json.int n)) : n.natAbs < 2 ^ 64 := by
  cases h with
  | int h =>
    obtain ⟨hlow, hhigh⟩ := Bool.and_eq_true_iff.1 h
    have hlow : -2 ^ 63 ≤ n := of_decide_eq_true hlow
    have hhigh : n < 2 ^ 64 := of_decide_eq_true hhigh
    omega

theorem WellFormed.isFinite {x : Binary64} (h : WellFormed (Json.float x)) :
    x.isFinite = true := by
  cases h with
  | float h => exact h

theorem WellFormed.items {items : List Json} (h : WellFormed (Json.arr items)) :
    ∀ j ∈ items, WellFormed j := by
  cases h with
  | arr h => exact h

theorem WellFormed.members {members : List (String × Json)} (h : WellFormed (Json.obj members)) :
    ∀ m ∈ members, WellFormed m.2 := by
  cases h with
  | obj h => exact h

namespace Raw

theorem wellFormed_of_number? {raw : List Char} {j : Json} (h : number? raw = some j) :
    j.WellFormed := by
  have hrounded : ∀ {j}, (do
      let x ← Binary64.ofChars? raw
      if x.isFinite then some (Json.float x) else none) = some j → j.WellFormed := by
    intro j h
    obtain ⟨x, _, h⟩ := Option.bind_eq_some_iff.1 h
    split at h
    case isTrue hx =>
      cases h
      exact .float hx
    case isFalse => cases h
  unfold number? at h
  dsimp only at h
  split at h
  · split at h
    case isTrue hn =>
      cases h
      exact .int (Bool.and_eq_true_iff.1 hn).1
    case isFalse => exact hrounded h
  · exact hrounded h

mutual

theorem wellFormed_of_json? {depth : Nat} {r : Raw} {j : Json} (h : r.json? depth = some j) :
    j.WellFormed := by
  cases r with
  | null =>
    cases h
    exact .null
  | bool b =>
    cases h
    exact .bool b
  | number raw => exact wellFormed_of_number? h
  | string raw =>
    obtain ⟨cs, _, rfl⟩ := Option.map_eq_some_iff.1 h
    exact .str _
  | array items =>
    unfold json? at h
    split at h
    · cases h
    · obtain ⟨js, hjs, rfl⟩ := Option.map_eq_some_iff.1 h
      exact .arr (wellFormed_of_items? hjs)
  | object members =>
    unfold json? at h
    split at h
    · cases h
    · obtain ⟨js, hjs, rfl⟩ := Option.map_eq_some_iff.1 h
      refine .obj ?_
      intro m hm
      obtain ⟨m', hm', hv⟩ := Entries.exists_mem_of_mem_ofList hm
      exact hv ▸ wellFormed_of_members? hjs m' hm'

theorem wellFormed_of_items? {depth : Nat} {rs : List Raw} {js : List Json}
    (h : items? depth rs = some js) : ∀ j ∈ js, j.WellFormed := by
  cases rs with
  | nil =>
    cases h
    simp
  | cons r rs =>
    obtain ⟨j, hj, h⟩ := Option.bind_eq_some_iff.1 h
    obtain ⟨js', hjs, h⟩ := Option.bind_eq_some_iff.1 h
    cases h
    exact List.forall_mem_cons.2 ⟨wellFormed_of_json? hj, wellFormed_of_items? hjs⟩

theorem wellFormed_of_members? {depth : Nat} {rs : List (List Char × Raw)}
    {js : List (String × Json)} (h : members? depth rs = some js) :
    ∀ m ∈ js, m.2.WellFormed := by
  cases rs with
  | nil =>
    cases h
    simp
  | cons r rs =>
    obtain ⟨key, r⟩ := r
    obtain ⟨name, _, h⟩ := Option.bind_eq_some_iff.1 h
    obtain ⟨j, hj, h⟩ := Option.bind_eq_some_iff.1 h
    obtain ⟨js', hjs, h⟩ := Option.bind_eq_some_iff.1 h
    cases h
    exact List.forall_mem_cons.2 ⟨wellFormed_of_json? hj, wellFormed_of_members? hjs⟩

end

end Raw

theorem wellFormed_of_ofText? {s : String} {j : Json} (h : ofText? s = some j) :
    j.WellFormed := by
  obtain ⟨r, _, h⟩ := Option.bind_eq_some_iff.1 h
  exact Raw.wellFormed_of_json? h

theorem wellFormed_of_ofBytes? {bytes : ByteArray} {j : Json} (h : ofBytes? bytes = some j) :
    j.WellFormed := by
  obtain ⟨s, _, h⟩ := Option.bind_eq_some_iff.1 h
  exact wellFormed_of_ofText? h

/-! ## Objects are kept by key -/

namespace Raw

theorem number?_ne_obj {raw : List Char} {members : List (String × Json)} :
    number? raw ≠ some (.obj members) := by
  intro h
  have hrounded : (do
      let x ← Binary64.ofChars? raw
      if x.isFinite then some (Json.float x) else none) ≠ some (.obj members) := by
    intro h
    obtain ⟨x, _, h⟩ := Option.bind_eq_some_iff.1 h
    split at h <;> cases h
  unfold number? at h
  dsimp only at h
  split at h
  · split at h
    · cases h
    · exact hrounded h
  · exact hrounded h

theorem exists_of_members? {depth : Nat} {rs : List (List Char × Raw)}
    {js : List (String × Json)} (h : members? depth rs = some js) :
    ∀ m ∈ js, ∃ r, json? depth r = some m.2 := by
  induction rs generalizing js with
  | nil =>
    cases h
    simp
  | cons r rs ih =>
    obtain ⟨key, r⟩ := r
    obtain ⟨name, _, h⟩ := Option.bind_eq_some_iff.1 h
    obtain ⟨j, hj, h⟩ := Option.bind_eq_some_iff.1 h
    obtain ⟨js', hjs, h⟩ := Option.bind_eq_some_iff.1 h
    cases h
    exact List.forall_mem_cons.2 ⟨⟨r, hj⟩, ih hjs⟩

/-- An object is kept by key, and each of its members is read like a document of its own. -/
theorem obj_of_json? {depth : Nat} {r : Raw} {members : List (String × Json)}
    (h : r.json? depth = some (.obj members)) :
    Entries.Increasing members ∧ ∀ m ∈ members, ∃ depth' r', json? depth' r' = some m.2 := by
  cases r with
  | null => cases h
  | bool => cases h
  | number raw => exact absurd h number?_ne_obj
  | string raw =>
    obtain ⟨cs, _, h⟩ := Option.map_eq_some_iff.1 h
    cases h
  | array items =>
    unfold json? at h
    split at h
    · cases h
    · obtain ⟨js, _, h⟩ := Option.map_eq_some_iff.1 h
      cases h
  | object rs =>
    unfold json? at h
    split at h
    · cases h
    · obtain ⟨js, hjs, h⟩ := Option.map_eq_some_iff.1 h
      cases h
      refine ⟨Entries.increasing_ofList js, fun m hm => ?_⟩
      obtain ⟨m', hm', hv⟩ := Entries.exists_mem_of_mem_ofList hm
      obtain ⟨r', hr'⟩ := exists_of_members? hjs m' hm'
      exact ⟨_, r', hv ▸ hr'⟩

end Raw

/-- The objects that are the members of a document are kept by key. -/
theorem increasing_of_ofBytes? {bytes : ByteArray} {members inner : List (String × Json)}
    {key : String} (h : ofBytes? bytes = some (.obj members)) (hm : (key, .obj inner) ∈ members) :
    Entries.Increasing inner := by
  obtain ⟨s, _, h⟩ := Option.bind_eq_some_iff.1 h
  obtain ⟨r, _, h⟩ := Option.bind_eq_some_iff.1 h
  obtain ⟨_, _, hinner⟩ := (Raw.obj_of_json? h).2 _ hm
  exact (Raw.obj_of_json? hinner).1

end Json
end ObjectSpace
