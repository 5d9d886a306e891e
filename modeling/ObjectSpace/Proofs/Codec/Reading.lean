import ObjectSpace.Proofs.Codec.Scalars
import ObjectSpace.Proofs.Codec.Walk

/-!
# Reading does not depend on the path

The path of a document only tells where a failure was. What a document reads as for a shape is built
from what its parts read as, at every path at once, and a document that reads at one path reads the
same at all others.
-/

namespace ObjectSpace
namespace Shape

open Success

/-- The document reads as this value for the shape, at every path. -/
abbrev Reads (s : Shape) (j : Json) (v : Value) : Prop := Everywhere read s j v

theorem reads_unique {s : Shape} {j : Json} {v w : Value} (hv : Reads s j v) (hw : Reads s j w) :
    v = w := Except.ok.inj ((hv "").symm.trans (hw ""))

/-! ## Reading out of parts -/

theorem reads_list {element : Shape} {js : List Json} {vs : List Value}
    (h : List.Forall₂ (Reads element) js vs) : Reads (list element) (.arr js) (.list vs) :=
  fun _ => map_eq_ok.2 ⟨vs, eachAt_of_forall₂ (h.imp fun _ _ hv _ => hv _) 0, rfl⟩

theorem reads_set {element : Shape} {js : List Json} {vs : List Value}
    (h : List.Forall₂ (Reads element) js vs) : Reads (set element) (.arr js) (.setOf vs) :=
  fun _ => map_eq_ok.2 ⟨vs, eachAt_of_forall₂ (h.imp fun _ _ hv _ => hv _) 0, rfl⟩

theorem reads_tuple {elements : List Shape} {js : List Json} {vs : List Value}
    (h : Each Reads elements js vs) : Reads (tuple elements) (.arr js) (.tuple vs) := by
  intro q
  rw [read, if_pos h.length_eq]
  exact map_eq_ok.2 ⟨vs, readEach_of_each h, rfl⟩

theorem reads_record {name : String} {declared : List (Member Shape)}
    {members : List (String × Json)} {rs : List (String × Value)}
    (h : List.Forall₂ (Filled Reads members) declared rs) :
    Reads (record name declared) (.obj members) (.ofMembers rs) :=
  fun _ => map_eq_ok.2 ⟨rs, readMembers_of_filled h, rfl⟩

theorem reads_map_of_obj {key value : Shape} {members : List (String × Json)}
    {entries sorted : List (Value × Value)} (ht : key.isTextual = true)
    (h : List.Forall₂ (MemberRead Reads key value) members entries)
    (hperm : sorted.Perm entries) (hinc : Entries.Increasing sorted) :
    Reads (map key value) (.obj members) (.map sorted) := by
  intro q
  unfold read
  dsimp only
  rw [if_pos ht]
  refine bind_eq_ok.2 ⟨entries, mapM_eq_ok.2 (h.imp fun m e he => ?_),
    canonicalEntries_eq_ok.2 ⟨sorted, rfl, hperm, hinc⟩⟩
  exact pair_eq_ok.2 ⟨he.1 _, he.2 _⟩

theorem reads_map_of_arr {key value : Shape} {pairs : List Json}
    {entries sorted : List (Value × Value)}
    (h : List.Forall₂ (PairRead Reads key value) pairs entries)
    (hperm : sorted.Perm entries) (hinc : Entries.Increasing sorted) :
    Reads (map key value) (.arr pairs) (.map sorted) := by
  intro q
  refine bind_eq_ok.2 ⟨entries, eachAt_of_forall₂ (h.imp fun pair e he k => ?_) 0,
    canonicalEntries_eq_ok.2 ⟨sorted, rfl, hperm, hinc⟩⟩
  obtain ⟨k, v, rfl, hk, hv⟩ := he
  exact pair_eq_ok.2 ⟨hk _, hv _⟩

/-- The alternatives before the one that reads the document fail wherever it stands. -/
theorem readFirst_everywhere {ss : List Shape} {j : Json} {v : Value}
    (ih : ∀ s ∈ ss, ∀ v, Somewhere read s j v → Reads s j v) {p : String}
    (h : readFirst p ss j = .ok v) (q : String) : readFirst q ss j = .ok v := by
  induction ss with
  | nil => cases h
  | cons s ss ih' =>
    obtain ⟨ihs, ihss⟩ := List.forall_mem_cons.1 ih
    unfold readFirst at h ⊢
    cases hp : read p s j with
    | ok w =>
      rw [hp] at h
      rw [ihs w ⟨p, hp⟩ q]
      exact h
    | error m =>
      rw [hp] at h
      have hrest : readFirst q ss j = .ok v := ih' ihss (mapError_eq_ok.1 h)
      cases hq : read q s j with
      | ok w =>
        rw [ihs w ⟨q, hq⟩ p] at hp
        cases hp
      | error m' => exact mapError_eq_ok.2 hrest

/-! ## All shapes -/

theorem readFloat_everywhere {p q : String} {j : Json} {v : Value} (h : readFloat p j = .ok v) :
    readFloat q j = .ok v := by
  unfold readFloat at h ⊢
  split at h
  · split at h
    · cases h
    case isFalse hn =>
      rw [if_neg hn]
      exact h
  · exact h
  · cases h

/-- A document that reads at one path reads the same at every path. -/
theorem reads_of_read {s : Shape} {j : Json} {v : Value} (h : Somewhere read s j v) :
    Reads s j v := by
  intro q
  induction s generalizing j v q with
  | int =>
    obtain ⟨p, h⟩ := h
    exact readInt_eq_ok.2 (readInt_eq_ok.1 h)
  | float =>
    obtain ⟨p, h⟩ := h
    exact readFloat_everywhere h
  | bool =>
    obtain ⟨p, h⟩ := h
    cases j with
    | bool b => exact h
    | _ => cases h
  | str =>
    obtain ⟨p, h⟩ := h
    obtain ⟨text, ht, rfl⟩ := map_eq_ok.1 h
    exact map_eq_ok.2 ⟨text, readText_eq_ok.2 (readText_eq_ok.1 ht), rfl⟩
  | bytes =>
    obtain ⟨p, h⟩ := h
    obtain ⟨text, ht, h⟩ := bind_eq_ok.1 h
    exact bind_eq_ok.2 ⟨text, readText_eq_ok.2 (readText_eq_ok.1 ht),
      bytesOfText_eq_ok.2 (bytesOfText_eq_ok.1 h)⟩
  | instant =>
    obtain ⟨p, h⟩ := h
    obtain ⟨text, ht, h⟩ := bind_eq_ok.1 h
    exact bind_eq_ok.2 ⟨text, readText_eq_ok.2 (readText_eq_ok.1 ht),
      instantOfText_eq_ok.2 (instantOfText_eq_ok.1 h)⟩
  | uuid =>
    obtain ⟨p, h⟩ := h
    obtain ⟨text, ht, h⟩ := bind_eq_ok.1 h
    exact bind_eq_ok.2 ⟨text, readText_eq_ok.2 (readText_eq_ok.1 ht),
      uuidOfText_eq_ok.2 (uuidOfText_eq_ok.1 h)⟩
  | choice name variants =>
    obtain ⟨p, h⟩ := h
    obtain ⟨text, ht, h⟩ := bind_eq_ok.1 h
    exact bind_eq_ok.2 ⟨text, readText_eq_ok.2 (readText_eq_ok.1 ht),
      choiceOfText_eq_ok.2 (choiceOfText_eq_ok.1 h)⟩
  | reference classId =>
    obtain ⟨p, h⟩ := h
    exact readReference_eq_ok.2 (readReference_eq_ok.1 h)
  | any =>
    obtain ⟨p, h⟩ := h
    exact h
  | optional inner ih =>
    obtain ⟨p, h⟩ := h
    by_cases hj : j = .null
    · subst hj
      exact h
    · rw [read_optional hj] at h ⊢
      exact ih ⟨p, h⟩ q
  | union alternatives ih =>
    obtain ⟨p, h⟩ := h
    have hfirst : readFirst p alternatives j = .ok v := mapError_eq_ok.1 h
    exact mapError_eq_ok.2 (readFirst_everywhere (fun s hs v hv q => ih s hs hv q) hfirst q)
  | list element ih =>
    obtain ⟨p, h⟩ := h
    obtain ⟨js, vs, rfl, rfl, hvs⟩ := exists_of_read_list h
    exact reads_list (hvs.imp fun _ _ hr q => ih hr q) q
  | set element ih =>
    obtain ⟨p, h⟩ := h
    obtain ⟨js, vs, rfl, rfl, hvs⟩ := exists_of_read_set h
    exact reads_set (hvs.imp fun _ _ hr q => ih hr q) q
  | tuple elements ih =>
    obtain ⟨p, h⟩ := h
    obtain ⟨js, vs, rfl, rfl, hvs⟩ := exists_of_read_tuple h
    exact reads_tuple (hvs.imp fun s hs _ _ _ hr q => ih s hs hr q) q
  | map key value ihk ihv =>
    obtain ⟨p, h⟩ := h
    obtain ⟨entries, hc, hrs⟩ := exists_of_read_map h
    obtain ⟨sorted, rfl, hperm, hinc⟩ := canonicalEntries_eq_ok.1 hc
    rcases hrs with ⟨members, rfl, ht, hrs⟩ | ⟨pairs, rfl, hrs⟩
    · refine reads_map_of_obj ht (hrs.imp fun m e hme => ?_) hperm hinc q
      exact ⟨fun q => ihk hme.1 q, fun q => ihv hme.2 q⟩
    · refine reads_map_of_arr (hrs.imp fun pair e hpe => ?_) hperm hinc q
      obtain ⟨k, v, hj, hk, hv⟩ := hpe
      exact ⟨k, v, hj, fun q => ihk hk q, fun q => ihv hv q⟩
  | record name declared ih =>
    obtain ⟨p, h⟩ := h
    obtain ⟨members, rs, rfl, rfl, hrs⟩ := exists_of_read_record h
    exact reads_record (Filled.imp hrs fun d hd _ _ _ hr q => ih d hd hr q) q

end Shape
end ObjectSpace
