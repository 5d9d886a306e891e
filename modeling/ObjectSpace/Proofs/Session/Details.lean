import ObjectSpace.Proofs.Identity.Text
import ObjectSpace.Proofs.Ordered
import ObjectSpace.Session.Error

/-!
# The details of a failed commit

The objects that a commit failed for are told by their texts. Identities have texts of their own, so
no object takes the place of another.
-/

namespace ObjectSpace
namespace CommitReport

variable {r : CommitReport}

/-- What is said of a failure: which object, and why. -/
def told (f : Identity × Report) : String × String := (f.1.text, f.2.message)

theorem details_commit :
    (SessionError.commit r).details.entries = Entries.ofList (r.failures.map told) := rfl

theorem nodup_told (h : (r.failures.map Prod.fst).Nodup) :
    ((r.failures.map told).map Prod.fst).Nodup := by
  have htexts : (r.failures.map told).map Prod.fst = (r.failures.map Prod.fst).map Identity.text := by
    rw [List.map_map, List.map_map]
    rfl
  rw [htexts]
  exact h.map Identity.text_injective

/-- A failed commit tells of each failure, and of each once, as long as no object failed twice; for
identities with the same text are the same. -/
theorem failures_told (a b : Identity) (r : CommitReport) :
    (a.text = b.text ↔ a = b) ∧
      ((r.failures.map Prod.fst).Nodup → (SessionError.commit r).details.entries.Perm
        (r.failures.map fun f => (f.1.text, f.2.message))) := by
  refine ⟨Identity.text_injective.eq_iff, fun h => ?_⟩
  rw [details_commit]
  exact Entries.ofList_perm (nodup_told h)

/-- Three objects whose texts begin alike. -/
def threeLogs : CommitReport :=
  ⟨2, 5, 0, [(⟨"Log", 11, 2⟩, .ofMessage .unavailable "store unavailable: backend down"),
    (⟨"Log/1", 12, 3⟩, .ofMessage .validation "unknown field"),
    (⟨"Log", 1, 12⟩, .ofMessage .unavailable "store rejected: quota exceeded")]⟩

theorem failures_told_threeLogs :
    (threeLogs.failures.map Prod.fst).Nodup ∧ (SessionError.commit threeLogs).details.entries.Perm
      [("Log/11/2", "store unavailable: backend down"), ("Log/1/12/3", "unknown field"),
        ("Log/1/12", "store rejected: quota exceeded")] := by
  have hnodup : (threeLogs.failures.map Prod.fst).Nodup := by decide
  exact ⟨hnodup, (failures_told ⟨"Log", 1, 12⟩ ⟨"Log/1", 12, 3⟩ threeLogs).2 hnodup⟩

end CommitReport
end ObjectSpace
