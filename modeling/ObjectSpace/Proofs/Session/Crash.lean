import ObjectSpace.Proofs.Session.Commit
import ObjectSpace.Proofs.Session.Through

/-!
# A commit that crashes

A crash of the store cuts a commit short, in the pass over the dirty objects or in the one over the
deletions. Either way the session knows which fields are unwritten: behind the crash a field is
dirty if it was dirty before and no batch with it was taken, and its value is still there. In the
first pass the deletions all stay queued. The second pass has taken the queue before it asks for the
first deletion, and a crash there forgets them all, the failed ones and those never tried.
-/

namespace ObjectSpace

open Store (Related Kept)

namespace Entry

/-- A batch with this field was taken. -/
def Written (es : List Entry) (id : Identity) (i : UInt32) : Prop :=
  ∃ e ∈ es, (e.payload? id i).isSome = true

theorem written_append {es : List Entry} {e : Entry} {id : Identity} {i : UInt32} :
    Written (es ++ [e]) id i ↔ Written es id i ∨ (e.payload? id i).isSome = true := by
  unfold Written
  simp only [List.mem_append, List.mem_singleton, or_and_right, exists_or, exists_eq_left]

theorem payload?_of_ne {e : Entry} {id : Identity} (h : e.write.identity ≠ id) (i : UInt32) :
    e.payload? id i = none := by
  unfold payload?
  split
  · exact if_neg h
  · rfl

theorem payload?_delete (id' : Identity) (out : Outcome StoreError Unit) (id : Identity)
    (i : UInt32) : payload? id i ⟨.delete id', out⟩ = none := rfl

theorem payload?_put_ok (id : Identity) (batch : Slots) (i : UInt32) :
    payload? id i ⟨.put id batch, .ok ()⟩ = batch.get? i := if_pos rfl

theorem payload?_put_of_failed {id' : Identity} {batch : Slots} {out : Outcome StoreError Unit}
    (h : out.isOk = false) (id : Identity) (i : UInt32) :
    payload? id i ⟨.put id' batch, out⟩ = none := by
  cases out with
  | ok u => cases h
  | fail e => rfl
  | crash => rfl

end Entry

/-! ## One object -/

namespace Resident

/-- Behind these entries an object still has its values, and its dirty fields are those that were
dirty and are not written. -/
structure Recalls (id : Identity) (o : Resident) (es : List Entry) (o' : Resident) : Prop where
  cache : o'.state.cache = o.state.cache
  dirty : ∀ i, o'.state.dirty.contains i = true ↔
    o.state.dirty.contains i = true ∧ ¬Entry.Written es id i

variable {id : Identity} {o o' : Resident} {es : List Entry} {e : Entry}

theorem recalls_nil (id : Identity) (o : Resident) : o.Recalls id [] o where
  cache := rfl
  dirty _ := (and_iff_left fun ⟨_, h, _⟩ => nomatch h).symm

/-- An entry that put nothing into its slots changes nothing for an object. -/
theorem Recalls.append (h : o.Recalls id es o') (he : ∀ i, e.payload? id i = none) :
    o.Recalls id (es ++ [e]) o' where
  cache := h.cache
  dirty i := by
    rw [Entry.written_append, he i, Option.isSome_none, h.dirty i]
    simp only [Bool.false_eq_true, or_false]

/-- The batch of all that is unwritten is taken. -/
theorem Recalls.settle (h : o.Recalls id es o') {b : Slots} (hb : o'.batch = .ok b) :
    o.Recalls id (es ++ [⟨.put id b, .ok ()⟩]) (o'.settle b) where
  cache := (cache_settle o' b).trans h.cache
  dirty i := by
    have hwritten : (b.get? i).isSome = o'.state.dirty.contains i := contains_batch hb i
    have hclean : Table.contains (o'.settle b).state.dirty i = false := by
      rw [dirty_settle hb]
      rfl
    rw [hclean, Entry.written_append, Entry.payload?_put_ok, hwritten, h.dirty i]
    tauto

variable {σ : Type} [Store σ]

theorem Recalls.flush {j : Journal σ} (h : o.Recalls id j.entries o') (hid : o'.identity = id) :
    o.Recalls id (flush (o', j)).2.2.entries (flush (o', j)).2.1 := by
  subst hid
  rcases o'.write?_cases with ⟨hd, _⟩ | ⟨e, hd, hb, _⟩ | ⟨b, hd, hb, _⟩
  · rw [flush_of_clean hd]
    exact h
  · rw [flush_of_not_encoded hd hb]
    exact h
  · rw [flush_put hd hb, Journal.put_apply]
    unfold Journal.write
    rw [Write.perform_put]
    cases (Store.put o'.identity b j.behind).1 with
    | ok u => exact h.settle hb
    | fail e => exact h.append (Entry.payload?_put_of_failed rfl _)
    | crash => exact h.append (Entry.payload?_put_of_failed rfl _)

/-- A flush crashes in its put. -/
theorem getLast?_of_flush {j : Journal σ} (h : (flush (o, j)).1 = .crash) :
    ∃ b, (flush (o, j)).2.2.entries.getLast? = some ⟨.put o.identity b, .crash⟩ := by
  rcases o.write?_cases with ⟨hd, _⟩ | ⟨e, hd, hb, _⟩ | ⟨b, hd, hb, _⟩
  · rw [flush_of_clean hd] at h
    cases h
  · rw [flush_of_not_encoded hd hb] at h
    cases h
  · refine ⟨b, ?_⟩
    rw [flush_put hd hb, Journal.put_apply] at h ⊢
    unfold Journal.write at h ⊢
    rw [Write.perform_put]
    cases hput : (Store.put o.identity b j.behind).1 with
    | ok u =>
      rw [hput] at h
      cases h
    | fail e =>
      rw [hput] at h
      cases h
    | crash => exact List.getLast?_concat

end Resident

/-! ## The passes -/

namespace Session

variable {σ : Type} [Store σ] {s s' : Session} {store store' : σ} {j j' : Journal σ}
  {report : CommitReport}

theorem lasting_recalls (id : Identity) (o : Resident) :
    Lasting id fun o? (j : Journal σ) => ∃ o', o? = some o' ∧ o.Recalls id j.entries o' where
  flush _ _ hid h := by
    obtain ⟨_, ho', hrecalls⟩ := h
    cases ho'
    exact ⟨_, rfl, hrecalls.flush hid⟩
  others _ := Store.related_kept (fun _ _ _ _ h => h)
    (fun _ _ _ hne h => h.imp fun _ h => h.imp_right fun h => h.append (Entry.payload?_of_ne hne))
    fun _ _ hne h => h.imp fun _ h => h.imp_right fun h => h.append (Entry.payload?_of_ne hne)

theorem getLast?_of_flushEach {ids : List Identity}
    (h : flushEach report ids (s, j) = (.crash, (s', j'))) :
    ∃ id b, j'.entries.getLast? = some ⟨.put id b, .crash⟩ := by
  induction ids generalizing s j report with
  | nil => cases h
  | cons id ids ih =>
    rcases flushEach_cases s j report id ids with
      ⟨_, hround⟩ | ⟨o, _, ⟨hcrash, hround⟩ | ⟨_, hround, _⟩⟩ <;> rw [hround] at h
    · exact ih h
    · cases h
      exact ⟨_, Resident.getLast?_of_flush hcrash⟩
    · exact ih h

/-- A crash leaves the session as it was when the pass began. -/
theorem getLast?_of_deleteEach {kept : KeySet Identity} {ids : List Identity}
    (h : deleteEach report kept ids (s, j) = (.crash, (s', j'))) :
    s' = s ∧ ∃ id, j'.entries.getLast? = some ⟨.delete id, .crash⟩ := by
  induction ids generalizing j report kept with
  | nil => cases h
  | cons id ids ih =>
    rcases deleteEach_cases s j report kept id ids with
      ⟨_, _, _, hround⟩ | ⟨_, hround, _⟩ | ⟨hcrash, hround⟩ <;> rw [hround] at h
    · exact ih h
    · exact ih h
    · cases h
      refine ⟨rfl, id, ?_⟩
      rw [Journal.delete_apply] at hcrash ⊢
      unfold Journal.write
      rw [Write.perform_delete]
      rcases hdelete : Store.delete id j.behind with ⟨out, store⟩
      rw [hdelete] at hcrash
      obtain rfl : out = .crash := hcrash
      exact List.getLast?_concat

/-- What a commit over a journal leaves when it crashes. -/
theorem recalls_of_crash_noted (hkeyed : s.Keyed)
    (h : commit (s, Journal.start store) = (.crash, (s', j'))) :
    (∀ id o, s.object? id = some o → ∃ o', s'.object? id = some o' ∧ o.Recalls id j'.entries o') ∧
      ((s'.deletions = s.deletions ∧ ∃ id b, j'.entries.getLast? = some ⟨.put id b, .crash⟩) ∨
        s'.deletions = {} ∧ ∃ id, j'.entries.getLast? = some ⟨.delete id, .crash⟩) := by
  have hflush : ∀ id o, s.object? id = some o →
      Holds id (fun o? (j : Journal σ) => ∃ o', o? = some o' ∧ o.Recalls id j.entries o')
        (flushEach .empty s.objects.keys (s, Journal.start store)).2 := fun id o ho =>
    Holds.flushEach ⟨hkeyed, o, ho, Resident.recalls_nil id o⟩ (lasting_recalls id o) _ _
  have hdeletions := deletions_flushEach s (Journal.start store) .empty s.objects.keys
  unfold commit at h
  dsimp only at h
  rcases hr : flushEach .empty s.objects.keys (s, Journal.start store) with ⟨out, s₁, j₁⟩
  rw [hr] at h hflush hdeletions
  cases out with
  | fail e => exact e.elim
  | crash =>
    cases h
    exact ⟨fun id o ho => (hflush id o ho).object, .inl ⟨hdeletions, getLast?_of_flushEach hr⟩⟩
  | ok report =>
    dsimp only at h
    obtain ⟨rfl, hlast⟩ := getLast?_of_deleteEach h
    refine ⟨fun id o ho => ?_, .inr ⟨rfl, hlast⟩⟩
    obtain ⟨o', ho', hrecalls⟩ := (hflush id o ho).object
    have hkept : o.Recalls id (deleteEach report {} s₁.deletions.keys
        ({ s₁ with deletions := {} }, j₁)).2.2.entries o' :=
      kept_deleteEach (q := fun j : Journal σ => o.Recalls id j.entries o') report {}
        (fun id' _ _ hj => hj.append (Entry.payload?_delete id' _ id)) hrecalls
    rw [h] at hkept
    exact ⟨o', ho', hkept⟩

/-- Behind a commit that crashes every object recalls what is unwritten of it. If the crash was in a
put the deletions are all queued still, and if it was in a deletion they are all forgotten. -/
theorem recalls_of_crash (hkeyed : s.Keyed)
    (h : commit (s, store) = (.crash, (s', store'))) :
    ∃ es w, commit (s, Journal.start store) = (.crash, (s', ⟨store', es⟩)) ∧
      es.getLast? = some ⟨w, .crash⟩ ∧
      (∀ id o, s.object? id = some o → ∃ o', s'.object? id = some o' ∧ o.Recalls id es o') ∧
      match w with
      | .put _ _ => s'.deletions = s.deletions
      | .delete _ => s'.deletions = {} := by
  obtain ⟨hout, hover⟩ := parallel_commit Journal.related_behind (s := (s, store))
    (t := (s, Journal.start store)) ⟨rfl, ⟨hkeyed, fun _ _ _ _ => trivial, fun _ _ => trivial⟩, rfl⟩
  rcases hnoted : commit (s, Journal.start store) with ⟨out, s₁, ⟨store₁, es⟩⟩
  rw [h, hnoted] at hout hover
  obtain rfl : out = .crash := hout
  obtain rfl : s₁ = s' := hover.session
  obtain rfl : store₁ = store' := hover.stores
  obtain ⟨hrecalls, ⟨hqueued, id, b, hlast⟩ | ⟨hforgotten, id, hlast⟩⟩ :=
    recalls_of_crash_noted hkeyed hnoted
  · exact ⟨es, .put id b, rfl, hlast, hrecalls, hqueued⟩
  · exact ⟨es, .delete id, rfl, hlast, hrecalls, hforgotten⟩

end Session

/-! ## A store that crashes -/

/-- A store in front of another one that takes so many writes, and crashes in the next one. -/
structure Fuse (σ : Type) where
  behind : σ
  left : Nat

namespace Fuse

variable {σ α : Type}

def burn (r : Run σ StoreError α) : Run (Fuse σ) StoreError α := fun f =>
  match f.left with
  | 0 => (.crash, f)
  | n + 1 =>
    let (out, s) := r f.behind
    (out, ⟨s, n⟩)

instance [Store σ] : Store (Fuse σ) where
  get id i := fun f =>
    let (out, s) := Store.get id i f.behind
    (out, { f with behind := s })
  put id batch := burn (Store.put id batch)
  delete id := burn (Store.delete id)

end Fuse

namespace Session

/-- Of two counters one is written before the crash. The other one is dirty still, and the third one
is still to be deleted. -/
theorem recalls_of_crash_counters :
    ∃ s' store' es, counters.Keyed ∧
      commit (counters, (⟨.empty, 1⟩ : Fuse Memory)) = (.crash, (s', store')) ∧
      s'.deletions.contains (counterId 3) = true ∧
      (∃ o, s'.object? (counterId 1) = some o ∧ (dirtyCounter 1).Recalls (counterId 1) es o ∧
        o.state.dirty.contains 0 = false) ∧
      ∃ o, s'.object? (counterId 2) = some o ∧ (dirtyCounter 2).Recalls (counterId 2) es o ∧
        o.state.dirty.contains 0 = true ∧ o.state.cache.get? 0 = some (.int 5) := by
  have hkeyed : counters.Keyed :=
    (((keyed_empty 0).putBack (dirtyCounter 1)).putBack (dirtyCounter 2)).delete (counterId 3)
  obtain ⟨s', store', hcommit⟩ : ∃ s' store',
      commit (counters, (⟨.empty, 1⟩ : Fuse Memory)) = (.crash, (s', store')) := ⟨_, _, rfl⟩
  obtain ⟨es, _, _, _, hrecalls, _⟩ := recalls_of_crash hkeyed hcommit
  obtain ⟨o₁, ho₁, hrecalls₁⟩ := hrecalls (counterId 1) (dirtyCounter 1) rfl
  obtain ⟨o₂, ho₂, hrecalls₂⟩ := hrecalls (counterId 2) (dirtyCounter 2) rfl
  cases hcommit
  cases ho₁
  cases ho₂
  exact ⟨_, _, es, hkeyed, rfl, rfl, ⟨_, rfl, hrecalls₁, rfl⟩, _, rfl, hrecalls₂, rfl, rfl⟩

/-- Three counters that are to be deleted. -/
def doomed : Session :=
  ((((empty 0).delete (counterId 1)).2.delete (counterId 2)).2.delete (counterId 3)).2

/-- The slots of a counter that was written. -/
def five : Slots := Table.empty.insert 0 "5".toUTF8

/-- The three counters are here. The first one cannot be deleted, and the second deletion crashes. -/
def brittle : Fuse (Unreliable Memory) :=
  ⟨⟨Faults.none.set .delete (counterId 1) (some .io),
    ((Memory.empty.write (counterId 1) five).write (counterId 2) five).write (counterId 3) five⟩, 1⟩

/-- The first deletion fails, the second one crashes, and the third one is not asked for. All three
are forgotten: the counters stay, and the next commit has nothing to do. -/
theorem deletions_forgotten :
    (∀ n ∈ [1, 2, 3], doomed.deletions.contains (counterId n) = true) ∧
    ∃ s' j', commit (doomed, Journal.start brittle) = (.crash, (s', j')) ∧
      j'.entries = [⟨.delete (counterId 1), .fail (.io "disk gone")⟩,
        ⟨.delete (counterId 2), .crash⟩] ∧
      (∀ n ∈ [1, 2, 3], s'.deletions.contains (counterId n) = false ∧
        j'.behind.behind.behind.slots (counterId n) = five) ∧
      commit (s', j') = (.ok .empty, (s', j')) := by
  have hqueued : ∀ n ∈ [1, 2, 3], doomed.deletions.contains (counterId n) = true :=
    List.forall_mem_cons.2 ⟨rfl, List.forall_mem_cons.2 ⟨rfl, List.forall_mem_singleton.2 rfl⟩⟩
  refine ⟨hqueued, _, _, rfl, rfl, ?_, rfl⟩
  exact List.forall_mem_cons.2 ⟨⟨rfl, rfl⟩,
    List.forall_mem_cons.2 ⟨⟨rfl, rfl⟩, List.forall_mem_singleton.2 ⟨rfl, rfl⟩⟩⟩

end Session
end ObjectSpace
