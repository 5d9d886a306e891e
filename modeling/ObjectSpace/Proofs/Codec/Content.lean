import Mathlib.Data.List.Perm.Basic
import ObjectSpace.Proofs.Codec.Reading

/-!
# Sets and maps by their content

A set is determined by its members and a map by its entries, in whatever order they come. So what a
document reads as does not change when the items of an array that stands for a set or a map change
their places, and a map with textual keys reads alike from an object and from the pairs of its
members.
-/

namespace ObjectSpace
namespace Shape

open Success

/-- The entries of a map are taken if their keys differ, and make the map of these entries. -/
theorem canonicalEntries_iff {path : String} {entries : List (Value × Value)} {r : Value} :
    canonicalEntries path entries = .ok r ↔
      (entries.map Prod.fst).Nodup ∧ r = Value.mapOf entries := by
  rw [canonicalEntries_eq_ok]
  constructor
  · rintro ⟨sorted, rfl, hperm, hinc⟩
    refine ⟨(hperm.map Prod.fst).nodup_iff.1 (Entries.nodup_keys_of_increasing hinc), ?_⟩
    rw [Value.mapOf, Entries.ofList_of_perm hperm.symm hinc]
  · rintro ⟨hnodup, rfl⟩
    exact ⟨_, rfl, Entries.ofList_perm hnodup, Entries.increasing_ofList entries⟩

theorem canonicalEntries_of_perm {path path' : String} {entries entries' : List (Value × Value)}
    (h : entries'.Perm entries) {r : Value} :
    canonicalEntries path' entries' = .ok r ↔ canonicalEntries path entries = .ok r := by
  have hsorted : ∀ sorted : List (Value × Value), sorted.Perm entries' ↔ sorted.Perm entries :=
    fun _ => h.congr_right _
  simp only [canonicalEntries_eq_ok, hsorted]

/-! ## Items in another order -/

/-- Documents that read alike somewhere read alike everywhere. -/
theorem read_congr {s : Shape} {j j' : Json} {v : Value} {path path' : String}
    (h : Somewhere read s j v ↔ Somewhere read s j' v) :
    read path s j = .ok v ↔ read path' s j' = .ok v :=
  ⟨fun hv => reads_of_read (h.1 ⟨path, hv⟩) path', fun hv => reads_of_read (h.2 ⟨path', hv⟩) path⟩

theorem read_set_of_perm {element : Shape} {js js' : List Json} {v : Value} (h : js'.Perm js)
    (hv : Somewhere read (set element) (.arr js) v) :
    Somewhere read (set element) (.arr js') v := by
  obtain ⟨path, hv⟩ := hv
  obtain ⟨_, vs, hjs, rfl, hvs⟩ := exists_of_read_set hv
  cases hjs
  obtain ⟨vs', hvs', hperm⟩ := List.perm_comp_forall₂ h hvs
  have hitems : Value.canonicalItems vs' = Value.canonicalItems vs :=
    Ordered.distinct_eq_iff.2 fun _ => hperm.mem_iff
  rw [Value.setOf, ← hitems]
  exact ⟨path, reads_set (hvs'.imp fun _ _ => reads_of_read) path⟩

theorem read_map_of_perm {key value : Shape} {pairs pairs' : List Json} {v : Value}
    (h : pairs'.Perm pairs) (hv : Somewhere read (map key value) (.arr pairs) v) :
    Somewhere read (map key value) (.arr pairs') v := by
  obtain ⟨path, hv⟩ := hv
  obtain ⟨entries, hc, hrs⟩ := exists_of_read_map hv
  rcases hrs with ⟨_, hj, _⟩ | ⟨_, hj, hrs⟩
  · cases hj
  · cases hj
    obtain ⟨entries', hrs', hperm⟩ := List.perm_comp_forall₂ h hrs
    obtain ⟨sorted, rfl, hsorted, hinc⟩ := canonicalEntries_eq_ok.1 hc
    refine ⟨path, reads_map_of_arr (hrs'.imp ?_) (hsorted.trans hperm.symm) hinc path⟩
    rintro pair e ⟨k, v, hj, hk, hv⟩
    exact ⟨k, v, hj, reads_of_read hk, reads_of_read hv⟩

/-! ## Objects and arrays of pairs -/

/-- A member of an object as an item of an array of pairs. -/
def pairOf (m : String × Json) : Json := .arr [.str m.1, m.2]

theorem pairRead_pairOf {R : Shape → Json → Value → Prop} {key value : Shape} {m : String × Json}
    {e : Value × Value} : PairRead R key value (pairOf m) e ↔ MemberRead R key value m e := by
  constructor
  · rintro ⟨k, v, hj, hk, hv⟩
    cases hj
    exact ⟨hk, hv⟩
  · rintro ⟨hk, hv⟩
    exact ⟨_, _, rfl, hk, hv⟩

theorem read_map_pairs_iff {key value : Shape} (ht : key.isTextual = true)
    {members : List (String × Json)} {v : Value} :
    Somewhere read (map key value) (.obj members) v ↔
      Somewhere read (map key value) (.arr (members.map pairOf)) v := by
  constructor
  · rintro ⟨path, hv⟩
    obtain ⟨entries, hc, hrs⟩ := exists_of_read_map hv
    rcases hrs with ⟨_, hj, _, hrs⟩ | ⟨_, hj, _⟩
    · cases hj
      obtain ⟨sorted, rfl, hsorted, hinc⟩ := canonicalEntries_eq_ok.1 hc
      refine ⟨path, reads_map_of_arr (List.forall₂_map_left_iff.2 ?_) hsorted hinc path⟩
      exact hrs.imp fun m e hme => pairRead_pairOf.2 ⟨reads_of_read hme.1, reads_of_read hme.2⟩
    · cases hj
  · rintro ⟨path, hv⟩
    obtain ⟨entries, hc, hrs⟩ := exists_of_read_map hv
    rcases hrs with ⟨_, hj, _⟩ | ⟨_, hj, hrs⟩
    · cases hj
    · cases hj
      obtain ⟨sorted, rfl, hsorted, hinc⟩ := canonicalEntries_eq_ok.1 hc
      refine ⟨path, reads_map_of_obj ht ((List.forall₂_map_left_iff.1 hrs).imp ?_) hsorted hinc path⟩
      intro m e hme
      have hmember := pairRead_pairOf.1 hme
      exact ⟨reads_of_read hmember.1, reads_of_read hmember.2⟩

/-! ## Only the content counts -/

/-- A set holds the items it is made of once and in order, however they came; a map holds for each
key its last value; and a map that refuses equal keys takes entries in any order. So it is with
documents: arrays may be rearranged, and an object may be spelled as an array of its members. -/
theorem canonical_by_content (items : List Value) (entries : List (Value × Value))
    (element key value : Shape) (path path' : String) (v : Value) :
    (Ordered.Increasing Value.compare (Value.canonicalItems items) ∧
      (∀ x, x ∈ Value.canonicalItems items ↔ x ∈ items) ∧
      ∀ items', (∀ x, x ∈ items' ↔ x ∈ items) →
        Value.canonicalItems items' = Value.canonicalItems items) ∧
    (∃ held, Value.mapOf entries = .map held ∧ Entries.Increasing held ∧
      ∀ k x, (k, x) ∈ held ↔ Entries.IsLast k x entries) ∧
    (((∃ r, canonicalEntries path entries = .ok r) ↔ (entries.map Prod.fst).Nodup) ∧
      (canonicalEntries path entries = .ok v → v = Value.mapOf entries) ∧
      ∀ entries', entries'.Perm entries →
        (canonicalEntries path' entries' = .ok v ↔ canonicalEntries path entries = .ok v)) ∧
    (∀ js js' : List Json, js'.Perm js →
      (read path' (set element) (.arr js') = .ok v ↔ read path (set element) (.arr js) = .ok v)) ∧
    (∀ pairs pairs' : List Json, pairs'.Perm pairs →
      (read path' (map key value) (.arr pairs') = .ok v ↔
        read path (map key value) (.arr pairs) = .ok v)) ∧
    (key.isTextual = true → ∀ (members : List (String × Json)) (pairs : List Json),
      pairs.Perm (members.map pairOf) →
        (read path' (map key value) (.obj members) = .ok v ↔
          read path (map key value) (.arr pairs) = .ok v)) := by
  refine ⟨⟨?_, fun _ => Ordered.mem_distinct, fun _ => Ordered.distinct_eq_iff.2⟩,
    ⟨_, rfl, Entries.increasing_ofList entries, fun _ _ => Entries.mem_ofList_iff⟩,
    ⟨?_, ?_, fun _ h => canonicalEntries_of_perm h⟩, ?_, ?_, ?_⟩
  · exact Ordered.increasing_distinct Value.compare items
  · simp only [canonicalEntries_iff, exists_and_left, exists_eq, and_true]
  · exact fun h => (canonicalEntries_iff.1 h).2
  · exact fun _ _ h => read_congr ⟨read_set_of_perm h.symm, read_set_of_perm h⟩
  · exact fun _ _ h => read_congr ⟨read_map_of_perm h.symm, read_map_of_perm h⟩
  · intro ht members pairs h
    exact read_congr ((read_map_pairs_iff ht).trans ⟨read_map_of_perm h, read_map_of_perm h.symm⟩)

end Shape
end ObjectSpace
