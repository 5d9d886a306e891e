import ObjectSpace.Proofs.Codec.Everywhere
import ObjectSpace.Proofs.Shape.Canonical

/-!
# What a union writes

A union tries its alternatives in order and stops at the first one whose document reads back as the
value. It also stops, without a document, at an alternative that has the value but cannot write it.
So a value is written exactly if some alternative carries it and none before that one is in the way.
-/

namespace ObjectSpace
namespace Shape

open Success

def Writable (s : Shape) (v : Value) : Prop := ∃ j, Writes s v j

/-- The alternative has the value, and its document reads back as the value for the whole union. -/
def Carries (alternatives : List Shape) (a : Shape) (v : Value) : Prop :=
  a.accepts v = true ∧
    ∃ j v', Writes a v j ∧ Reads (union alternatives) j v' ∧ v'.same v = true

/-- An alternative that is not in the way: it can write the value, or does not have it. -/
def Passes (b : Shape) (v : Value) : Prop := b.accepts v = true → Writable b v

/-! ## The walk over the alternatives -/

theorem writeFirst_of_carries {all before after : List Shape} {a : Shape} {v : Value}
    (hbefore : ∀ b ∈ before, Passes b v) (ha : Carries all a v) (path : String) :
    ∃ j, writeFirst path all (before ++ a :: after) v = .ok (some j) := by
  induction before with
  | nil =>
    obtain ⟨haccepts, j, v', hw, hr, hsame⟩ := ha
    have hread : readFirst path all j = .ok v' := mapError_eq_ok.1 (hr path)
    refine ⟨j, ?_⟩
    rw [List.nil_append, writeFirst, if_pos haccepts]
    refine bind_eq_ok.2 ⟨j, hw path, ?_⟩
    rw [hread]
    exact if_pos hsame
  | cons b bs ih =>
    obtain ⟨hb, hbs⟩ := List.forall_mem_cons.1 hbefore
    obtain ⟨j, hj⟩ := ih hbs
    rw [List.cons_append, writeFirst]
    by_cases haccepts : b.accepts v = true
    · rw [if_pos haccepts]
      obtain ⟨jb, hjb⟩ := hb haccepts
      -- the document of `b` reads back as the value, or the walk goes on
      by_cases hback : ∃ w, readFirst path all jb = .ok w ∧ w.same v = true
      · obtain ⟨w, hw, hsame⟩ := hback
        refine ⟨jb, bind_eq_ok.2 ⟨jb, hjb path, ?_⟩⟩
        rw [hw]
        exact if_pos hsame
      · refine ⟨j, bind_eq_ok.2 ⟨jb, hjb path, ?_⟩⟩
        cases hw : readFirst path all jb with
        | ok w => exact (if_neg fun hsame => hback ⟨w, hw, hsame⟩).trans hj
        | error _ => exact hj
    · rw [if_neg haccepts]
      exact ⟨j, hj⟩

theorem carries_of_writeFirst {path : String} {all ss : List Shape} {v : Value} {j : Json}
    (h : writeFirst path all ss v = .ok (some j)) :
    ∃ before a after, ss = before ++ a :: after ∧ (∀ b ∈ before, Passes b v) ∧
      Carries all a v := by
  induction ss with
  | nil => cases h
  | cons s ss ih =>
    have hskip : Passes s v → writeFirst path all ss v = .ok (some j) →
        ∃ before a after, s :: ss = before ++ a :: after ∧ (∀ b ∈ before, Passes b v) ∧
          Carries all a v := by
      intro hs h
      obtain ⟨before, a, after, rfl, hbefore, ha⟩ := ih h
      exact ⟨s :: before, a, after, rfl, List.forall_mem_cons.2 ⟨hs, hbefore⟩, ha⟩
    rw [writeFirst] at h
    split at h
    case isTrue haccepts =>
      obtain ⟨js, hjs, h⟩ := bind_eq_ok.1 h
      have hwrites : Writes s v js := writes_of_write ⟨path, hjs⟩
      split at h
      case h_1 v' hv' =>
        split at h
        case isTrue hsame =>
          have hreads : Reads (union all) js v' :=
            reads_of_read ⟨path, mapError_eq_ok.2 hv'⟩
          exact ⟨[], s, ss, rfl, List.forall_mem_nil _, haccepts, js, v', hwrites, hreads, hsame⟩
        case isFalse => exact hskip (fun _ => ⟨js, hwrites⟩) h
      case h_2 => exact hskip (fun _ => ⟨js, hwrites⟩) h
    case isFalse haccepts => exact hskip (fun h => absurd h haccepts) h

/-- A union writes a value exactly if some alternative carries it and none before is in the way. -/
theorem writable_union_iff {alternatives : List Shape} {v : Value} :
    Writable (union alternatives) v ↔ ∃ before a after, alternatives = before ++ a :: after ∧
      (∀ b ∈ before, Passes b v) ∧ Carries alternatives a v := by
  constructor
  · rintro ⟨j, hj⟩
    have hwrite := hj ""
    rw [write] at hwrite
    split at hwrite
    · obtain ⟨found, hfound, h⟩ := bind_eq_ok.1 hwrite
      cases found with
      | some j' => exact carries_of_writeFirst hfound
      | none => cases h
    · cases hwrite
  · rintro ⟨before, a, after, hsplit, hbefore, ha⟩
    have hmem : a ∈ alternatives := hsplit ▸ List.mem_append_right _ List.mem_cons_self
    have haccepts : anyAccepts alternatives v = true := anyAccepts_iff.2 ⟨a, hmem, ha.1⟩
    obtain ⟨j, hj⟩ : ∃ j, writeFirst "" alternatives (before ++ a :: after) v = .ok (some j) :=
      writeFirst_of_carries hbefore ha ""
    refine ⟨j, writes_of_write ⟨"", ?_⟩⟩
    rw [write, if_pos haccepts]
    exact bind_eq_ok.2 ⟨some j, hsplit ▸ hj, rfl⟩

end Shape
end ObjectSpace
