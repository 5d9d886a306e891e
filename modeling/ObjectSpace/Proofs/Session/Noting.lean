import ObjectSpace.Proofs.Session.Step

/-!
# Stores that note what they are asked

Over any store there is one that notes the writes it is asked for and is otherwise the same. It
shows what a commit asks for: batches of objects in the session, and deletions that are queued.
-/

namespace ObjectSpace

/-- A store with the writes it was asked for, the latest last. -/
structure Noting (σ : Type) where
  behind : σ
  asked : List Write

namespace Noting

variable {σ α : Type}

def note (w : Write) (r : Run σ StoreError α) : Run (Noting σ) StoreError α := fun n =>
  let (out, s) := r n.behind
  (out, ⟨s, n.asked ++ [w]⟩)

instance [Store σ] : Store (Noting σ) where
  get id i := fun n =>
    let (out, s) := Store.get id i n.behind
    (out, { n with behind := s })
  put id b := note (.put id b) (Store.put id b)
  delete id := note (.delete id) (Store.delete id)

/-- The end of a computation, when these writes were asked for on the way. -/
def ended {ε τ : Type} (n : Noting σ) (ws : List Write) (x : Outcome ε α × τ × σ) :
    Outcome ε α × τ × Noting σ :=
  (x.1, x.2.1, ⟨x.2.2, n.asked ++ ws⟩)

variable {ε τ : Type}

theorem ended_nil (n : Noting σ) (out : Outcome ε α) (t : τ) :
    n.ended [] (out, t, n.behind) = (out, t, n) := by
  unfold ended
  rw [List.append_nil]

theorem ended_append (n : Noting σ) (ws ws' : List Write) (s : σ) (x : Outcome ε α × τ × σ) :
    (⟨s, n.asked ++ ws⟩ : Noting σ).ended ws' x = n.ended (ws ++ ws') x := by
  unfold ended
  rw [List.append_assoc]

variable [Store σ]

theorem put_apply (n : Noting σ) (id : Identity) (b : Slots) : Store.put id b n =
    ((Store.put id b n.behind).1,
      (⟨(Store.put id b n.behind).2, n.asked ++ [.put id b]⟩ : Noting σ)) := rfl

theorem delete_apply (n : Noting σ) (id : Identity) : Store.delete id n =
    ((Store.delete id n.behind).1,
      (⟨(Store.delete id n.behind).2, n.asked ++ [.delete id]⟩ : Noting σ)) := rfl

/-- It holds what the store behind it holds. -/
instance [LawfulStore σ] : LawfulStore (Noting σ) where
  slots n := LawfulStore.slots n.behind
  get_answer h := by
    obtain ⟨ho, rfl⟩ := Prod.mk.inj h
    exact LawfulStore.get_answer (Prod.ext ho rfl)
  get_slots h := by
    obtain ⟨ho, rfl⟩ := Prod.mk.inj h
    exact LawfulStore.get_slots (Prod.ext ho rfl)
  put_slots h := by
    obtain ⟨ho, rfl⟩ := Prod.mk.inj h
    exact LawfulStore.put_slots (Prod.ext ho rfl)
  put_other h hne := by
    obtain ⟨ho, rfl⟩ := Prod.mk.inj h
    exact LawfulStore.put_other (Prod.ext ho rfl) hne
  put_failed h hne := by
    obtain ⟨ho, rfl⟩ := Prod.mk.inj h
    exact LawfulStore.put_failed (Prod.ext ho rfl) hne
  delete_slots h := by
    obtain ⟨ho, rfl⟩ := Prod.mk.inj h
    exact LawfulStore.delete_slots (Prod.ext ho rfl)
  delete_other h hne := by
    obtain ⟨ho, rfl⟩ := Prod.mk.inj h
    exact LawfulStore.delete_other (Prod.ext ho rfl) hne
  delete_failed h hne := by
    obtain ⟨ho, rfl⟩ := Prod.mk.inj h
    exact LawfulStore.delete_failed (Prod.ext ho rfl) hne

end Noting

variable {σ : Type} [Store σ]

theorem Resident.flush_noting (o : Resident) (n : Noting σ) :
    flush (o, n) = n.ended o.write?.toList (flush (o, n.behind)) := by
  rcases o.write?_cases with ⟨hd, hw⟩ | ⟨e, hd, hb, hw⟩ | ⟨b, hd, hb, hw⟩
  · rw [flush_of_clean hd, flush_of_clean hd, hw]
    exact (Noting.ended_nil n _ _).symm
  · rw [flush_of_not_encoded hd hb, flush_of_not_encoded hd hb, hw]
    exact (Noting.ended_nil n _ _).symm
  · rw [flush_put hd hb, flush_put hd hb, hw]
    rw [Noting.put_apply]
    rcases Store.put o.identity b n.behind with ⟨out, s⟩
    cases out <;> rfl

namespace Session

variable {s : Session}

theorem isResident_putBack {o : Resident} (h : s.isResident o.identity = true) (id : Identity) :
    (s.putBack o).isResident id = s.isResident id := by
  refine (isResident_insert s s.deletions o.identity id o).trans ?_
  by_cases hid : id = o.identity
  · rw [hid, h, Bool.or_true]
  · rw [decide_eq_false hid, Bool.false_or]

/-- What an object asks for is a batch for itself. -/
theorem exists_put (hkeyed : s.Keyed) {id : Identity} {o : Resident} (ho : s.object? id = some o)
    {w : Write} (hw : w ∈ o.write?.toList) : ∃ id b, w = .put id b ∧ s.isResident id = true := by
  obtain ⟨_, b, _, rfl⟩ := Resident.write?_eq_some (Option.mem_toList.1 hw)
  refine ⟨o.identity, b, rfl, ?_⟩
  rw [hkeyed id o ho]
  exact Table.contains_iff.2 ⟨o, ho⟩

theorem flushEach_noting (hkeyed : s.Keyed) (report : CommitReport) (ids : List Identity)
    (n : Noting σ) : ∃ ws, flushEach report ids (s, n) =
        n.ended ws (flushEach report ids (s, n.behind)) ∧
      ∀ w ∈ ws, ∃ id b, w = .put id b ∧ s.isResident id = true := by
  induction ids generalizing s n report with
  | nil => exact ⟨[], (Noting.ended_nil n _ _).symm, by simp⟩
  | cons id ids ih =>
    unfold flushEach
    dsimp only
    cases ho : s.object? id with
    | none => exact ih hkeyed report n
    | some o =>
      dsimp only
      cases hd : o.isDirty with
      | false => exact ih hkeyed report n
      | true =>
        -- the other objects are flushed behind this one, whether it was written or not
        have hrest : ∀ report, ∃ ws,
            flushEach report ids (s.putBack (o.flushed n.behind),
                (⟨(Resident.flush (o, n.behind)).2.2, n.asked ++ o.write?.toList⟩ : Noting σ)) =
              n.ended (o.write?.toList ++ ws) (flushEach report ids
                (s.putBack (o.flushed n.behind), (Resident.flush (o, n.behind)).2.2)) ∧
            ∀ w ∈ o.write?.toList ++ ws, ∃ id b, w = .put id b ∧ s.isResident id = true := by
          intro report
          obtain ⟨ws, heq, hws⟩ := ih (hkeyed.putBack (o.flushed n.behind)) report
            ⟨(Resident.flush (o, n.behind)).2.2, n.asked ++ o.write?.toList⟩
          refine ⟨ws, heq.trans (Noting.ended_append n _ _ _ _), fun w hw => ?_⟩
          rcases List.mem_append.1 hw with hw | hw
          · exact exists_put hkeyed ho hw
          · obtain ⟨id', b, hw, hid'⟩ := hws w hw
            refine ⟨id', b, hw, ?_⟩
            rwa [isResident_putBack] at hid'
            rw [Resident.identity_flushed, hkeyed id o ho]
            exact Table.contains_iff.2 ⟨o, ho⟩
        rw [Resident.flush_noting]
        unfold Resident.flushed at hrest
        unfold Noting.ended
        rcases hflush : Resident.flush (o, n.behind) with ⟨out, o', s'⟩
        rw [hflush] at hrest
        cases out with
        | ok written =>
          obtain ⟨ws, h⟩ := hrest (report.addFlushed written)
          exact ⟨_, h⟩
        | fail e =>
          obtain ⟨ws, h⟩ := hrest (report.addFailure id (Reported.report e))
          exact ⟨_, h⟩
        | crash => exact ⟨_, rfl, fun w hw => exists_put hkeyed ho hw⟩

theorem deleteEach_noting (report : CommitReport) (kept : KeySet Identity) (ids : List Identity)
    (n : Noting σ) : ∃ ws, deleteEach report kept ids (s, n) =
        n.ended ws (deleteEach report kept ids (s, n.behind)) ∧
      ∀ w ∈ ws, ∃ id ∈ ids, w = .delete id := by
  induction ids generalizing n report kept with
  | nil => exact ⟨[], (Noting.ended_nil n _ _).symm, by simp⟩
  | cons id ids ih =>
    have hrest : ∀ report kept store, ∃ ws,
        deleteEach report kept ids (s, (⟨store, n.asked ++ [.delete id]⟩ : Noting σ)) =
          n.ended (.delete id :: ws) (deleteEach report kept ids (s, store)) ∧
        ∀ w ∈ Write.delete id :: ws, ∃ id' ∈ id :: ids, w = .delete id' := by
      intro report kept store
      obtain ⟨ws, heq, hws⟩ := ih report kept ⟨store, n.asked ++ [.delete id]⟩
      refine ⟨ws, heq.trans (Noting.ended_append n _ _ _ _), fun w hw => ?_⟩
      rcases List.mem_cons.1 hw with rfl | hw
      · exact ⟨id, List.mem_cons_self, rfl⟩
      · obtain ⟨id', hid', hw⟩ := hws w hw
        exact ⟨id', List.mem_cons_of_mem id hid', hw⟩
    unfold deleteEach
    dsimp only
    rw [Noting.delete_apply]
    rcases Store.delete id n.behind with ⟨out, store⟩
    cases out with
    | ok existed =>
      obtain ⟨ws, h⟩ := hrest report.addDeleted kept store
      exact ⟨_, h⟩
    | fail e =>
      obtain ⟨ws, h⟩ := hrest (report.addFailure id (Reported.report e)) (kept.add id) store
      exact ⟨_, h⟩
    | crash =>
      refine ⟨[.delete id], rfl, fun w hw => ⟨id, List.mem_cons_self, ?_⟩⟩
      exact List.mem_singleton.1 hw

/-- A commit asks for batches of objects in the session and then for deletions that are queued. -/
theorem commit_noting (hkeyed : s.Keyed) (n : Noting σ) :
    ∃ ws, commit (s, n) = n.ended ws (commit (s, n.behind)) ∧
      ∀ w ∈ ws, (∃ id b, w = .put id b ∧ s.isResident id = true) ∨
        ∃ id, w = .delete id ∧ s.deletions.contains id = true := by
  obtain ⟨puts, heq, hputs⟩ := flushEach_noting hkeyed .empty s.objects.keys n
  have hworks := works_flushEach hkeyed n.behind .empty s.objects.keys
  unfold commit
  dsimp only
  rw [heq]
  unfold Noting.ended
  rcases hflush : flushEach .empty s.objects.keys (s, n.behind) with ⟨out, s', store'⟩
  rw [hflush] at hworks
  cases out with
  | ok report =>
    obtain ⟨deletes, heq, hdeletes⟩ := deleteEach_noting (s := { s' with deletions := {} })
      report {} s'.deletions.keys ⟨store', n.asked ++ puts⟩
    refine ⟨puts ++ deletes, heq.trans (Noting.ended_append n _ _ _ _), fun w hw => ?_⟩
    rcases List.mem_append.1 hw with hw | hw
    · exact .inl (hputs w hw)
    · obtain ⟨id, hid, rfl⟩ := hdeletes w hw
      exact .inr ⟨id, rfl, hworks.deletions id (Table.mem_keys.1 hid)⟩
  | fail e => exact e.elim
  | crash => exact ⟨puts, rfl, fun w hw => .inl (hputs w hw)⟩

end Session
end ObjectSpace
