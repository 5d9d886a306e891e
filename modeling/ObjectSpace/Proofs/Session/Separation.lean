import ObjectSpace.Proofs.Session.Noting
import ObjectSpace.Proofs.Session.Commit
import ObjectSpace.Store.Memory

/-!
# Objects that are to be deleted

Making an object withdraws its deletion, and deleting one takes it out of the session. So an object
is not in the session and queued for deletion at once, and no commit deletes what it has written,
unless the object was brought in while it was waiting to be deleted.
-/

namespace ObjectSpace

namespace Session

/-- The object is not in the session and queued for deletion at once. -/
def SeparateAt (s : Session) (id : Identity) : Prop :=
  s.isResident id = true → s.deletions.contains id = false

variable {s s' : Session} {id : Identity}

/-- Only bringing in an object that is to be deleted can make it both. -/
theorem Transition.separateAt {r : Registry} {step : Step} (h : Transition r s step s')
    (hload : step = .load id.classId id → s.deletions.contains id = false)
    (hs : s.SeparateAt id) : s'.SeparateAt id := by
  intro hresident
  cases h with
  | work h =>
    rw [h.isResident] at hresident
    have hnot := hs hresident
    rw [← Bool.not_eq_true] at hnot ⊢
    exact fun hid => hnot (h.deletions id hid)
  | @create fresh classId id? id' c hc =>
    change Table.contains (Table.erase s.deletions id') id = false
    rw [KeySet.contains_erase]
    rw [isResident_insert] at hresident
    by_cases hid : id = id'
    · simp [hid]
    · rw [decide_eq_false hid, Bool.false_or] at hresident
      rw [hs hresident, Bool.and_false]
  | @load id' c hc =>
    rw [isResident_insert] at hresident
    by_cases hid : id = id'
    · exact hload (by rw [hid])
    · rw [decide_eq_false hid, Bool.false_or] at hresident
      exact hs hresident
  | @delete id' =>
    change ((s.objects.erase id').get? id).isSome = true at hresident
    rw [Table.get?_erase_eq] at hresident
    split at hresident
    · cases hresident
    case isFalse hid =>
      change Table.contains (KeySet.add s.deletions id') id = false
      rw [KeySet.contains_add, hs hresident, Bool.or_false]
      exact decide_eq_false hid

variable {σ : Type} [Store σ]

theorem separateAt_run (c : Catalog) (localOnly : Bool) {t : Session × σ} {steps : List Step}
    (hkeyed : t.1.Keyed) (hs : t.1.SeparateAt id)
    (hload : ∀ before after, steps = before ++ .load id.classId id :: after →
      (run c localOnly before t).1.deletions.contains id = false) :
    (run c localOnly steps t).1.Keyed ∧ (run c localOnly steps t).1.SeparateAt id := by
  induction steps generalizing t with
  | nil => exact ⟨hkeyed, hs⟩
  | cons step steps ih =>
    have hstep := transition_perform c localOnly hkeyed t.2 step
    refine ih (hstep.keyed hkeyed) (hstep.separateAt (fun h => ?_) hs) ?_
    · exact hload [] steps (congrArg (· :: steps) h)
    · intro before after h
      exact hload (step :: before) after (congrArg (step :: ·) h)

/-- What is never brought in while it waits to be deleted is never in the session and queued at
once, and a commit does not put and delete it. -/
theorem resident_not_queued (c : Catalog) (localOnly : Bool) (partition : UInt32) (store : σ)
    (steps : List Step) (id : Identity)
    (hload : ∀ before after, steps = before ++ .load id.classId id :: after →
      (run c localOnly before (empty partition, store)).1.deletions.contains id = false)
    {s : Session} {store' : σ}
    (hrun : run c localOnly steps (empty partition, store) = (s, store')) :
    ¬(s.isResident id = true ∧ s.deletions.contains id = true) ∧
    ∃ ws, commit (s, (⟨store', []⟩ : Noting σ)) =
        (⟨store', []⟩ : Noting σ).ended ws (commit (s, store')) ∧
      ∀ b, .put id b ∈ ws → .delete id ∉ ws := by
  obtain ⟨hkeyed, hs⟩ := separateAt_run c localOnly (t := (empty partition, store))
    (keyed_empty partition) (fun h => nomatch h) hload
  rw [hrun] at hkeyed hs
  have hnot : ¬(s.isResident id = true ∧ s.deletions.contains id = true) := by
    rintro ⟨hresident, hqueued⟩
    rw [hs hresident] at hqueued
    cases hqueued
  obtain ⟨ws, heq, hws⟩ := commit_noting hkeyed (⟨store', []⟩ : Noting σ)
  refine ⟨hnot, ws, heq, fun b hput hdelete => hnot ⟨?_, ?_⟩⟩
  · rcases hws _ hput with ⟨id', b', hw, hid⟩ | ⟨id', hw, _⟩
    · cases hw
      exact hid
    · cases hw
  · rcases hws _ hdelete with ⟨id', b', hw, _⟩ | ⟨id', hw, hid⟩
    · cases hw
    · cases hw
      exact hid

/-- The service of counters, without methods. -/
def counterService : Service :=
  ⟨⟨"Counter", [.of "count" 0 .int none], [], []⟩, by decide⟩

def counterCatalog : Catalog := ⟨Table.empty.insert "Counter" counterService⟩

/-- A counter is brought in, set, deleted, made again, and set again. -/
def madeAgain : List Step :=
  [.load "Counter" (counterId 1), .work (counterId 1) (.set "count" (.int 4)),
    .delete (counterId 1), .create 0 "Counter" (some (counterId 1)),
    .work (counterId 1) (.set "count" (.int 5))]

theorem resident_not_queued_madeAgain :
    (∀ before after, madeAgain = before ++ .load (counterId 1).classId (counterId 1) :: after →
      (run counterCatalog false before (empty 0, Memory.empty)).1.deletions.contains (counterId 1) =
        false) ∧
    ∃ s store, run counterCatalog false madeAgain (empty 0, Memory.empty) = (s, store) ∧
      ¬(s.isResident (counterId 1) = true ∧ s.deletions.contains (counterId 1) = true) ∧
      ∃ ws, commit (s, (⟨store, []⟩ : Noting Memory)) =
          (⟨store, []⟩ : Noting Memory).ended ws (commit (s, store)) ∧
        ∀ b, .put (counterId 1) b ∈ ws → .delete (counterId 1) ∉ ws := by
  have hload : ∀ before after,
      madeAgain = before ++ .load (counterId 1).classId (counterId 1) :: after →
      (run counterCatalog false before (empty 0, Memory.empty)).1.deletions.contains (counterId 1) =
        false := by
    intro before after h
    cases before with
    | nil => rfl
    | cons step before =>
      have hmem : Step.load (counterId 1).classId (counterId 1) ∈ madeAgain.tail := by
        rw [h, List.cons_append, List.tail_cons]
        exact List.mem_append_right _ List.mem_cons_self
      simp [madeAgain] at hmem
  exact ⟨hload, _, _, rfl, resident_not_queued counterCatalog false 0 Memory.empty madeAgain
    (counterId 1) hload rfl⟩

/-- A counter is deleted, brought in before the deletion is committed, and set. -/
def broughtBack : List Step :=
  [.delete (counterId 1), .load "Counter" (counterId 1),
    .work (counterId 1) (.set "count" (.int 5))]

/-- The counter is in the session and queued for deletion, and the commit deletes it right after it
has put it. -/
theorem resident_and_queued :
    ∃ s store, run counterCatalog false broughtBack (empty 0, Memory.empty) = (s, store) ∧
      s.isResident (counterId 1) = true ∧ s.deletions.contains (counterId 1) = true ∧
      ∃ s' store' b, commit (s, (⟨store, []⟩ : Noting Memory)) = (.ok ⟨1, 1, 1, []⟩,
        s', ⟨store', [.put (counterId 1) b, .delete (counterId 1)]⟩) :=
  ⟨_, _, rfl, rfl, rfl, _, _, _, rfl⟩

end Session
end ObjectSpace
