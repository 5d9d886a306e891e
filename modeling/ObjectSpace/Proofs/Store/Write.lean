import ObjectSpace.Proofs.Run
import ObjectSpace.Proofs.Store.Lawful

/-!
# Writes to a store

A write puts a batch of slots or deletes an object. In an independent store what comes of a write
does not hang on the writes to other objects, so a list of writes to different objects does to each
of them what its write alone would do.
-/

namespace ObjectSpace

inductive Write where
  | put (id : Identity) (batch : Slots)
  | delete (id : Identity)

namespace Write

variable {σ : Type} [Store σ]

def identity : Write → Identity
  | put id _ => id
  | delete id => id

def perform : Write → Run σ StoreError Unit
  | put id batch => Store.put id batch
  | delete id => (fun _ => ()) <$> Store.delete id

/-- The store behind a write. -/
def after (w : Write) (s : σ) : σ := (w.perform s).2

def succeeds (w : Write) (s : σ) : Bool := (w.perform s).1.isOk

/-- The slots of the object after a write that succeeds. -/
def apply : Write → Slots → Slots
  | put _ batch, slots => slots.merge batch
  | delete _, _ => {}

theorem perform_put {id : Identity} {batch : Slots} {s : σ} :
    (put id batch).perform s = Store.put id batch s := rfl

theorem perform_delete {id : Identity} {s : σ} :
    (delete id).perform s = match Store.delete id s with
      | (.ok _, s) => (.ok (), s)
      | (.fail e, s) => (.fail e, s)
      | (.crash, s) => (.crash, s) := by
  change ((fun _ => ()) <$> Store.delete id : Run σ StoreError Unit) s = _
  rw [Run.map_apply]
  rcases Store.delete id s with ⟨o, s'⟩
  cases o <;> rfl

variable [LawfulStore σ] {w : Write} {s : σ}

theorem slots_after_of_succeeds (h : w.succeeds s = true) :
    LawfulStore.slots (w.after s) w.identity = w.apply (LawfulStore.slots s w.identity) := by
  cases w with
  | put id batch =>
    obtain ⟨⟨⟩, hput⟩ := Outcome.isOk_iff.1 h
    exact LawfulStore.put_slots (Prod.ext hput rfl)
  | delete id =>
    unfold succeeds at h
    unfold after
    rw [perform_delete] at h ⊢
    rcases hdelete : Store.delete id s with ⟨o, s'⟩
    rw [hdelete] at h
    cases o with
    | ok existed => exact LawfulStore.delete_slots hdelete
    | fail e => cases h
    | crash => cases h

theorem slots_after_of_failed (h : w.succeeds s = false) :
    LawfulStore.slots (w.after s) = LawfulStore.slots s := by
  cases w with
  | put id batch =>
    rcases hput : Store.put id batch s with ⟨o, s'⟩
    have ho : o.isOk = false := by
      rw [← h, succeeds, perform_put, hput]
    unfold after
    rw [perform_put, hput]
    apply LawfulStore.put_failed hput
    intro hok
    rw [hok] at ho
    cases ho
  | delete id =>
    unfold succeeds at h
    unfold after
    rw [perform_delete] at h ⊢
    rcases hdelete : Store.delete id s with ⟨o, s'⟩
    rw [hdelete] at h
    cases o with
    | ok existed => cases h
    | fail e => exact LawfulStore.delete_failed hdelete (by simp)
    | crash => exact LawfulStore.delete_failed hdelete (by simp)

theorem slots_after_of_ne {id : Identity} (h : id ≠ w.identity) :
    LawfulStore.slots (w.after s) id = LawfulStore.slots s id := by
  cases w with
  | put id' batch => exact LawfulStore.put_other (Prod.ext rfl rfl) h
  | delete id' =>
    unfold after
    rw [perform_delete]
    rcases hdelete : Store.delete id' s with ⟨o, s'⟩
    have hslots := LawfulStore.delete_other hdelete h
    cases o <;> exact hslots

end Write

/-- The store takes every batch of the object. -/
def Store.Takes {σ : Type} [Store σ] (id : Identity) (s : σ) : Prop :=
  ∀ batch, (Store.put id batch s).1 = .ok ()

/-- Each object is written on its own account, and a calm store does not crash. -/
class IndependentStore (σ : Type) [Store σ] extends LawfulStore σ where
  calm : σ → Prop
  calm_after {w : Write} {s : σ} : calm s → calm (w.after s)
  not_crash {w : Write} {s : σ} : calm s → (w.perform s).1 ≠ .crash
  perform_after {w w' : Write} {s : σ} : calm s → w'.identity ≠ w.identity →
    (w'.perform (w.after s)).1 = (w'.perform s).1

namespace Memory

theorem fenced_after (w : Write) (m : Memory) : (w.after m).fenced = m.fenced := by
  cases w with
  | put id batch =>
    change (put id batch m).2.fenced = _
    unfold put
    split
    · rfl
    · split <;> rfl
  | delete id => rfl

theorem perform_eq (w : Write) (m : Memory) :
    (w.perform m).1 = match w with
      | .put id _ =>
        if m.fenced.contains id then .fail (.unavailable id "object is fenced") else .ok ()
      | .delete _ => .ok () := by
  cases w with
  | put id batch =>
    change (put id batch m).1 = _
    unfold put
    dsimp only
    split
    · rfl
    · split <;> rfl
  | delete id => rfl

instance : IndependentStore Memory where
  calm _ := True
  calm_after _ := trivial
  not_crash {w m} _ := by
    rw [perform_eq]
    split
    · split <;> simp
    · simp
  perform_after {w w' m} _ _ := by
    rw [perform_eq, perform_eq, fenced_after]

end Memory

namespace Unreliable

variable {σ : Type} [Store σ]

/-- The faults that a write meets. -/
def faultsOf (u : Unreliable σ) : Write → Table Identity Fault
  | .put _ _ => u.faults.put
  | .delete _ => u.faults.delete

theorem perform_eq (w : Write) {u : Unreliable σ} (hcalm : u.faults.crashesNext = false) :
    w.perform u = match (u.faultsOf w).get? w.identity with
      | some f => (.fail (f.error w.identity), u)
      | none => ((w.perform u.behind).1, { u with behind := w.after u.behind }) := by
  have hcheck : ∀ {α : Type} (faults : Faults → Table Identity Fault) (id : Identity)
      (r : Run (Unreliable σ) StoreError α), (check faults id >>= fun _ => r) u =
        match (faults u.faults).get? id with
        | some f => (.fail (f.error id), u)
        | none => r u := by
    intro α faults id r
    rw [Run.bind_apply, check]
    cases (faults u.faults).get? id <;> rfl
  cases w with
  | put id batch =>
    change (crashOnce >>= fun _ => check Faults.put id >>= fun _ =>
      onBehind (Store.put id batch)) u = _
    rw [Run.bind_apply, crashOnce, hcalm]
    exact hcheck _ _ _
  | delete id =>
    have hdelete : Store.delete id u =
        (check Faults.delete id >>= fun _ => onBehind (Store.delete id)) u := rfl
    rw [Write.perform_delete, hdelete, hcheck]
    change _ = match u.faults.delete.get? id with | some f => _ | none => _
    cases u.faults.delete.get? id with
    | some f => rfl
    | none =>
      unfold Write.after onBehind
      rw [Write.perform_delete]
      dsimp only
      rcases Store.delete id u.behind with ⟨o, s⟩
      cases o <;> rfl

theorem faults_after (w : Write) {u : Unreliable σ} (hcalm : u.faults.crashesNext = false) :
    (w.after u).faults = u.faults := by
  unfold Write.after
  rw [perform_eq w hcalm]
  split <;> rfl

theorem behind_after (w : Write) {u : Unreliable σ} (hcalm : u.faults.crashesNext = false) :
    (w.after u).behind = u.behind ∨ (w.after u).behind = w.after u.behind := by
  unfold Write.after
  rw [perform_eq w hcalm]
  split
  · exact .inl rfl
  · exact .inr rfl

variable [IndependentStore σ]

instance : IndependentStore (Unreliable σ) where
  calm u := u.faults.crashesNext = false ∧ IndependentStore.calm u.behind
  calm_after {w u} h := by
    constructor
    · rw [faults_after w h.1]
      exact h.1
    · rcases behind_after w h.1 with hb | hb <;> rw [hb]
      · exact h.2
      · exact IndependentStore.calm_after h.2
  not_crash {w u} h := by
    rw [perform_eq w h.1]
    split
    · simp
    · exact IndependentStore.not_crash h.2
  perform_after {w w' u} h hne := by
    have hfaults := faults_after w h.1
    have hcalm : (w.after u).faults.crashesNext = false := by
      rw [hfaults]
      exact h.1
    have hof : (w.after u).faultsOf w' = u.faultsOf w' := by
      cases w' <;> simp only [faultsOf, hfaults]
    rw [perform_eq w' hcalm, perform_eq w' h.1, hof]
    cases (u.faultsOf w').get? w'.identity with
    | some f => rfl
    | none =>
      dsimp only
      rcases behind_after w h.1 with hb | hb <;> rw [hb]
      exact IndependentStore.perform_after h.2 hne

end Unreliable

/-! ## Writes to different objects -/

namespace Write

variable {σ : Type} [Store σ] [IndependentStore σ] {s : σ}

def afterAll (ws : List Write) (s : σ) : σ := ws.foldl (fun s w => w.after s) s

theorem calm_afterAll (h : IndependentStore.calm s) (ws : List Write) :
    IndependentStore.calm (afterAll ws s) := by
  induction ws generalizing s with
  | nil => exact h
  | cons w ws ih => exact ih (IndependentStore.calm_after h)

/-- Writes to other objects do not decide what comes of a write. -/
theorem perform_afterAll {ws : List Write} {w : Write} (h : IndependentStore.calm s)
    (hw : w.identity ∉ ws.map identity) : (w.perform (afterAll ws s)).1 = (w.perform s).1 := by
  induction ws generalizing s with
  | nil => rfl
  | cons w' ws ih =>
    rw [List.map_cons, List.mem_cons, not_or] at hw
    obtain ⟨hne, hrest⟩ := hw
    rw [← IndependentStore.perform_after h hne]
    exact ih (IndependentStore.calm_after h) hrest

theorem slots_afterAll_of_not_mem {ws : List Write} {id : Identity}
    (h : id ∉ ws.map identity) :
    LawfulStore.slots (afterAll ws s) id = LawfulStore.slots s id := by
  induction ws generalizing s with
  | nil => rfl
  | cons w ws ih =>
    rw [List.map_cons, List.mem_cons, not_or] at h
    obtain ⟨hne, hrest⟩ := h
    exact (ih hrest).trans (slots_after_of_ne hne)

/-- The slots of an object are what the only write to it makes of them. -/
theorem slots_afterAll {ws : List Write} (h : IndependentStore.calm s)
    (hnodup : (ws.map identity).Nodup) {w : Write} (hw : w ∈ ws) :
    LawfulStore.slots (afterAll ws s) w.identity =
      if w.succeeds s then w.apply (LawfulStore.slots s w.identity)
      else LawfulStore.slots s w.identity := by
  induction ws generalizing s with
  | nil => cases hw
  | cons w' ws ih =>
    obtain ⟨hfresh, hnodup⟩ := List.nodup_cons.1 hnodup
    rcases List.mem_cons.1 hw with rfl | hw
    · change LawfulStore.slots (afterAll ws (w.after s)) w.identity = _
      rw [slots_afterAll_of_not_mem hfresh]
      split
      case isTrue hs => exact slots_after_of_succeeds hs
      case isFalse hs => rw [slots_after_of_failed (Bool.eq_false_iff.2 hs)]
    · have hne : w.identity ≠ w'.identity := fun he =>
        hfresh (he ▸ List.mem_map_of_mem hw)
      have hsucceeds : w.succeeds (w'.after s) = w.succeeds s := by
        rw [succeeds, IndependentStore.perform_after h hne, succeeds]
      change LawfulStore.slots (afterAll ws (w'.after s)) w.identity = _
      rw [ih (IndependentStore.calm_after h) hnodup hw, hsucceeds, slots_after_of_ne hne]

end Write
end ObjectSpace
