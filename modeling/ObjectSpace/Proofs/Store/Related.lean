import ObjectSpace.Proofs.Run
import ObjectSpace.Proofs.Store.Lawful

/-!
# Related stores

Two stores are related on some objects if, asked about these, they answer alike and stay related.
Whoever keeps to these objects cannot tell the stores from each other. A store is related to itself
by what it keeps while others work on it.
-/

namespace ObjectSpace

section

variable {σ τ ε ε' α β : Type}

/-- From related states the computations end alike and leave them related. -/
def Run.Parallel (R : σ → τ → Prop) (r : Run σ ε α) (r' : Run τ ε α) : Prop :=
  ∀ ⦃s t⦄, R s t → (r' t).1 = (r s).1 ∧ R (r s).2 (r' t).2

namespace Run.Parallel

variable {R : σ → τ → Prop} {r : Run σ ε α} {r' : Run τ ε α}

theorem exists_end (h : Parallel R r r') {s : σ} {t : τ} (hst : R s t) :
    ∃ out s' t', r s = (out, s') ∧ r' t = (out, t') ∧ R s' t' := by
  obtain ⟨hout, hR⟩ := h hst
  exact ⟨(r s).1, (r s).2, (r' t).2, rfl, Prod.ext hout rfl, hR⟩

theorem ofOutcome (out : Outcome ε α) : Parallel R (.ofOutcome out) (.ofOutcome out) :=
  fun _ _ h => ⟨rfl, h⟩

theorem ofExcept (x : Except ε α) : Parallel R (.ofExcept x) (.ofExcept x) := ofOutcome _

theorem bind (h : Parallel R r r') {f : α → Run σ ε β} {f' : α → Run τ ε β}
    (hf : ∀ a, Parallel R (f a) (f' a)) : Parallel R (r >>= f) (r' >>= f') := by
  intro s t hst
  obtain ⟨out, s', t', hs, ht, h'⟩ := h.exists_end hst
  rw [Run.bind_apply, Run.bind_apply, hs, ht]
  cases out with
  | ok a => exact hf a h'
  | fail e => exact ⟨rfl, h'⟩
  | crash => exact ⟨rfl, h'⟩

theorem mapError (h : Parallel R r r') (f : ε → ε') :
    Parallel R (r.mapError f) (r'.mapError f) := by
  intro s t hst
  obtain ⟨out, s', t', hs, ht, h'⟩ := h.exists_end hst
  unfold Run.mapError
  rw [hs, ht]
  exact ⟨rfl, h'⟩

/-- What is looked up first is the same in related states. -/
theorem look (p : σ → Except ε β) (p' : τ → Except ε β) (hp : ∀ ⦃s t⦄, R s t → p' t = p s)
    {f : β → Run σ ε α} {f' : β → Run τ ε α} (hf : ∀ b, Parallel R (f b) (f' b)) :
    Parallel R (getState >>= fun s => .ofExcept (p s) >>= f)
      (getState >>= fun t => .ofExcept (p' t) >>= f') := by
  intro s t hst
  rw [Run.look_bind_apply, Run.look_bind_apply, hp hst]
  cases p s with
  | ok b => exact hf b hst
  | error e => exact ⟨rfl, hst⟩

end Run.Parallel
end

namespace Store

variable {σ τ : Type} [Store σ] [Store τ]

/-- Asked about these objects, the stores answer alike and stay related. -/
structure Related (A : Identity → Prop) (R : σ → τ → Prop) : Prop where
  get {id : Identity} (h : A id) (i : UInt32) : Run.Parallel R (Store.get id i) (Store.get id i)
  put {id : Identity} (h : A id) (batch : Slots) :
    Run.Parallel R (Store.put id batch) (Store.put id batch)
  delete {id : Identity} (h : A id) : Run.Parallel R (Store.delete id) (Store.delete id)

/-- A store beside itself. -/
def Kept (p : σ → Prop) (s s' : σ) : Prop := s' = s ∧ p s

/-- What every operation on these objects keeps. -/
theorem related_kept {A : Identity → Prop} {p : σ → Prop}
    (hget : ∀ id i s, A id → p s → p (Store.get id i s).2)
    (hput : ∀ id batch s, A id → p s → p (Store.put id batch s).2)
    (hdelete : ∀ id s, A id → p s → p (Store.delete id s).2) : Related A (Kept p) where
  get {id} h i := by
    rintro s _ ⟨rfl, hs⟩
    exact ⟨rfl, rfl, hget id i _ h hs⟩
  put {id} h batch := by
    rintro s _ ⟨rfl, hs⟩
    exact ⟨rfl, rfl, hput id batch _ h hs⟩
  delete {id} h := by
    rintro s _ ⟨rfl, hs⟩
    exact ⟨rfl, rfl, hdelete id _ h hs⟩

theorem Related.keeps_delete {A : Identity → Prop} {p : σ → Prop} (h : Related A (Kept p))
    {id : Identity} (hid : A id) (s : σ) (hs : p s) : p (Store.delete id s).2 :=
  (h.delete hid ⟨rfl, hs⟩).2.2

end Store

namespace Memory

/-- Both hold the same slots of these objects, and have the same of them fenced. -/
structure AgreeOn (A : Identity → Prop) (m m' : Memory) : Prop where
  objects : ∀ id, A id → m'.objects.get? id = m.objects.get? id
  fenced : ∀ id, A id → m'.fenced.contains id = m.fenced.contains id

variable {A B : Identity → Prop} {m m' m'' : Memory} {id : Identity}

theorem AgreeOn.refl (A : Identity → Prop) (m : Memory) : AgreeOn A m m :=
  ⟨fun _ _ => rfl, fun _ _ => rfl⟩

theorem AgreeOn.trans (h : AgreeOn A m m') (h' : AgreeOn A m' m'') : AgreeOn A m m'' :=
  ⟨fun id hid => (h'.objects id hid).trans (h.objects id hid),
    fun id hid => (h'.fenced id hid).trans (h.fenced id hid)⟩

theorem AgreeOn.slots (h : AgreeOn A m m') (hid : A id) : m'.slots id = m.slots id :=
  congrArg (fun slots? : Option Slots => slots?.getD {}) (h.objects id hid)

/-- An operation that may change the slots of one object leaves those of all others. -/
theorem agreeOn_of_ne (hid : ¬A id) (hobjects : ∀ id', id' ≠ id →
    m'.objects.get? id' = m.objects.get? id') (hfenced : m'.fenced = m.fenced) :
    AgreeOn A m m' where
  objects id' hid' := hobjects id' fun heq => hid (heq ▸ hid')
  fenced id' _ := by rw [hfenced]

theorem objects_put_of_ne {id' : Identity} (hne : id' ≠ id) (batch : Slots) (m : Memory) :
    (put id batch m).2.objects.get? id' = m.objects.get? id' := by
  unfold put
  split
  · rfl
  · split
    · rfl
    · exact (Table.get?_insert _ _ _ _).trans (if_neg hne)

theorem fenced_put (id : Identity) (batch : Slots) (m : Memory) :
    (put id batch m).2.fenced = m.fenced := by
  unfold put
  split
  · rfl
  · split <;> rfl

theorem agreeOn_put (h : AgreeOn A m m') (hid : A id) (batch : Slots) :
    (put id batch m').1 = (put id batch m).1 ∧
      AgreeOn A (put id batch m).2 (put id batch m').2 := by
  unfold put
  rw [h.fenced id hid]
  split
  · exact ⟨rfl, h⟩
  · split
    · exact ⟨rfl, h⟩
    · refine ⟨rfl, fun id' hid' => ?_, h.fenced⟩
      unfold write
      rw [h.slots hid]
      simp only [Table.get?_insert, h.objects id' hid']

theorem agreeOn_delete (h : AgreeOn A m m') (hid : A id) :
    (delete id m').1 = (delete id m).1 ∧ AgreeOn A (delete id m).2 (delete id m').2 := by
  refine ⟨?_, fun id' hid' => ?_, h.fenced⟩
  · unfold delete Table.contains
    rw [h.objects id hid]
  · unfold delete
    simp only [Table.get?_erase_eq, h.objects id' hid']

/-- Memories that agree on some objects cannot be told from each other by their means. -/
theorem related_agreeOn (A : Identity → Prop) : Store.Related A (AgreeOn A) where
  get hid i := fun _ _ h =>
    ⟨congrArg (fun slots : Slots => Outcome.ok (slots.get? i)) (h.slots hid), h.objects, h.fenced⟩
  put hid batch := fun _ _ h => agreeOn_put h hid batch
  delete hid := fun _ _ h => agreeOn_delete h hid

/-- Work on some objects leaves all others as they were. -/
theorem related_apart (hdisjoint : ∀ id, A id → ¬B id) (start : Memory) :
    Store.Related A (Store.Kept (AgreeOn B start)) :=
  Store.related_kept (fun _ _ _ _ h => ⟨h.objects, h.fenced⟩)
    (fun id batch m hid h => h.trans (agreeOn_of_ne (hdisjoint id hid)
      (fun _ hne => objects_put_of_ne hne batch m) (fenced_put id batch m)))
    fun id _ hid h => h.trans (agreeOn_of_ne (hdisjoint id hid)
      (fun _ hne => (Table.get?_erase_eq _ _ _).trans (if_neg hne)) rfl)

end Memory
end ObjectSpace
