import ObjectSpace.Proofs.Object.Overlay
import ObjectSpace.Proofs.Store.Write

/-!
# Stores that stay with what they say

A steady store refuses a request for an object or grants it whatever was asked for that object
before. Only what the slots hold changes.
-/

namespace ObjectSpace

open Verdict (asked)

class SteadyStore (σ : Type) [Store σ] extends IndependentStore σ where
  calm_get {id : Identity} {i : UInt32} {s : σ} : calm s → calm (Store.get id i s).2
  asked_get {id : Identity} {i : UInt32} {s : σ} : calm s →
    asked id (Store.get id i s).2 = asked id s
  asked_put {id : Identity} {batch : Slots} {s : σ} : calm s →
    asked id (Store.put id batch s).2 = asked id s

/-- Stores that say the same take the same. -/
theorem Store.Takes.of_asked {σ : Type} [Store σ] {id : Identity} {s s' : σ}
    (h : Store.Takes id s) (hasked : asked id s' = asked id s) : Store.Takes id s' :=
  fun batch => (congrFun (congrArg Verdict.put hasked) batch).trans (h batch)

namespace Memory

theorem takes_of_not_fenced {id : Identity} {m : Memory} (h : m.fenced.contains id = false) :
    Store.Takes id m := by
  intro batch
  change ((Write.put id batch).perform m).1 = _
  rw [perform_eq]
  dsimp only
  rw [h]
  rfl

theorem asked_eq (id : Identity) (m : Memory) : asked id m =
    ⟨fun _ => .ok (), fun _ =>
      if m.fenced.contains id then .fail (.unavailable id "object is fenced") else .ok ()⟩ := by
  have hput : ∀ batch, (Store.put id batch m).1 = _ := fun batch => perform_eq (.put id batch) m
  unfold asked
  simp only [hput]
  rfl

instance : SteadyStore Memory where
  calm_get _ := trivial
  asked_get := by
    intro id i m _
    rw [asked_eq, asked_eq]
    rfl
  asked_put := by
    intro id batch m _
    have hfenced : (Store.put id batch m).2.fenced = m.fenced := fenced_after (.put id batch) m
    rw [asked_eq, asked_eq, hfenced]

end Memory

namespace Unreliable

variable {σ : Type} [Store σ]

theorem faults_get (id : Identity) (i : UInt32) (u : Unreliable σ) :
    (Store.get id i u).2.faults = u.faults := by
  change ((check Faults.get id >>= fun _ => onBehind (Store.get id i)) u).2.faults = _
  rw [Run.bind_apply, check]
  cases u.faults.get.get? id <;> rfl

theorem behind_get (id : Identity) (i : UInt32) (u : Unreliable σ) :
    (Store.get id i u).2.behind = u.behind ∨
      (Store.get id i u).2.behind = (Store.get id i u.behind).2 := by
  change ((check Faults.get id >>= fun _ => onBehind (Store.get id i)) u).2.behind = _ ∨
    ((check Faults.get id >>= fun _ => onBehind (Store.get id i)) u).2.behind = _
  rw [Run.bind_apply, check]
  cases u.faults.get.get? id with
  | some f => exact .inl rfl
  | none => exact .inr rfl

/-- What is said is up to the faults, and to the store behind where none is set. -/
theorem asked_eq (id : Identity) {u : Unreliable σ} (hcalm : u.faults.crashesNext = false) :
    asked id u =
      ⟨fun i => match u.faults.get.get? id with
        | some f => .fail (f.error id)
        | none => (asked id u.behind).get i,
      fun batch => match u.faults.put.get? id with
        | some f => .fail (f.error id)
        | none => (asked id u.behind).put batch⟩ := by
  have hput : ∀ batch, (Store.put id batch u).1 = match u.faults.put.get? id with
      | some f => .fail (f.error id)
      | none => (asked id u.behind).put batch := by
    intro batch
    change ((Write.put id batch).perform u).1 = _
    rw [perform_eq (.put id batch) hcalm]
    change (match u.faults.put.get? id with | some f => _ | none => _ : Outcome _ _ × _).1 = _
    cases u.faults.put.get? id <;> rfl
  have hget : ∀ i, Verdict.ofOutcome (Store.get id i u).1 = match u.faults.get.get? id with
      | some f => .fail (f.error id)
      | none => (asked id u.behind).get i := by
    intro i
    change Verdict.ofOutcome
      ((check Faults.get id >>= fun _ => onBehind (Store.get id i)) u).1 = _
    rw [Run.bind_apply, check]
    cases u.faults.get.get? id <;> rfl
  unfold asked at hput hget ⊢
  simp only [hput, hget]

theorem asked_of_behind {id : Identity} {u u' : Unreliable σ}
    (hcalm : u.faults.crashesNext = false) (hfaults : u'.faults = u.faults)
    (hbehind : asked id u'.behind = asked id u.behind) : asked id u' = asked id u := by
  have hcalm' : u'.faults.crashesNext = false := by
    rw [hfaults]
    exact hcalm
  rw [asked_eq id hcalm, asked_eq id hcalm', hfaults, hbehind]

variable [SteadyStore σ]

instance : SteadyStore (Unreliable σ) where
  calm_get := by
    intro id i u h
    constructor
    · rw [faults_get]
      exact h.1
    · rcases behind_get id i u with hb | hb <;> rw [hb]
      · exact h.2
      · exact SteadyStore.calm_get h.2
  asked_get := by
    intro id i u h
    refine asked_of_behind h.1 (faults_get id i u) ?_
    rcases behind_get id i u with hb | hb <;> rw [hb]
    exact SteadyStore.asked_get h.2
  asked_put := by
    intro id batch u h
    refine asked_of_behind h.1 (faults_after (.put id batch) h.1) ?_
    rcases behind_after (.put id batch) h.1 with hb | hb
    · exact congrArg (asked id) hb
    · exact (congrArg (asked id) hb).trans (SteadyStore.asked_put h.2)

end Unreliable
end ObjectSpace
