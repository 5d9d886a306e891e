import Mathlib.Logic.Function.Basic
import ObjectSpace.Proofs.Service.Invoke
import ObjectSpace.Proofs.Session.Over
import ObjectSpace.Proofs.Session.Separation

/-!
# Sessions that work on different objects

Sessions take their steps over one memory store in any order. If none of them is about an object of
another, each is answered as if it were alone, and the store comes to hold what it would hold if the
sessions had worked one after the other.
-/

namespace ObjectSpace
namespace Session

/-- A step that was taken, with its answer. -/
abbrev Taken : Type := (step : Step) × Outcome SessionError step.Answer

section

variable {σ : Type} [Store σ] (c : Catalog) (localOnly : Bool)

/-- Steps taken one after the other: their answers, and the session and the store behind them. -/
def alone : List Step → Session × σ → List Taken × Session × σ
  | [], t => ([], t)
  | step :: steps, t =>
    let (out, t) := step.answer c localOnly t
    let (answers, t) := alone steps t
    (⟨step, out⟩ :: answers, t)

/-- Nothing else is done than in a run of the steps. -/
theorem state_alone (steps : List Step) (t : Session × σ) :
    (alone c localOnly steps t).2 = run c localOnly steps t := by
  induction steps generalizing t with
  | nil => rfl
  | cons step steps ih =>
    change (alone c localOnly steps (step.answer c localOnly t).2).2 = _
    rw [ih, step.state_answer]
    rfl

end
end Session

open Session (Step Taken alone counterId)
open Memory (AgreeOn)

/-- Sessions over one store, each with the answers to the steps that it has taken. -/
structure Concurrent (ι σ : Type) where
  sessions : ι → Session
  answers : ι → List Taken
  store : σ

namespace Concurrent

variable {ι σ : Type} [DecidableEq ι]

def start (sessions : ι → Session) (store : σ) : Concurrent ι σ := ⟨sessions, fun _ => [], store⟩

def turn [Store σ] (c : ι → Catalog) (localOnly : ι → Bool) (t : Concurrent ι σ) (i : ι)
    (step : Step) : Concurrent ι σ :=
  let (out, s, store) := step.answer (c i) (localOnly i) (t.sessions i, t.store)
  ⟨Function.update t.sessions i s,
    Function.update t.answers i (t.answers i ++ [⟨step, out⟩]), store⟩

def run [Store σ] (c : ι → Catalog) (localOnly : ι → Bool) (turns : List (ι × Step))
    (t : Concurrent ι σ) : Concurrent ι σ :=
  turns.foldl (fun t (i, step) => t.turn c localOnly i step) t

/-- The steps of one session, in their order. -/
def stepsOf (turns : List (ι × Step)) (i : ι) : List Step :=
  (turns.filter fun turn => turn.1 = i).map Prod.snd

/-- The turns of one session after those of another. -/
def inOrder (order : List ι) (turns : List (ι × Step)) : List (ι × Step) :=
  order.flatMap fun i => turns.filter fun turn => turn.1 = i

theorem stepsOf_cons_self (i : ι) (step : Step) (turns : List (ι × Step)) :
    stepsOf ((i, step) :: turns) i = step :: stepsOf turns i := by
  unfold stepsOf
  rw [List.filter_cons, if_pos (decide_eq_true rfl), List.map_cons]

theorem stepsOf_cons_of_ne {i j : ι} (h : j ≠ i) (step : Step) (turns : List (ι × Step)) :
    stepsOf ((j, step) :: turns) i = stepsOf turns i := by
  unfold stepsOf
  rw [List.filter_cons, if_neg (by simpa using h)]

theorem filter_inOrder {order : List ι} (hnodup : order.Nodup) (turns : List (ι × Step)) (i : ι) :
    (inOrder order turns).filter (fun turn => turn.1 = i) =
      if i ∈ order then turns.filter (fun turn => turn.1 = i) else [] := by
  have hfilter : ∀ j, (turns.filter fun turn => turn.1 = j).filter (fun turn => turn.1 = i) =
      if j = i then turns.filter (fun turn => turn.1 = i) else [] := by
    intro j
    rw [List.filter_filter]
    split
    case isTrue h => simp [h]
    case isFalse h =>
      refine List.filter_eq_nil_iff.2 fun turn _ hturn => h ?_
      rw [Bool.and_eq_true, decide_eq_true_eq, decide_eq_true_eq] at hturn
      exact hturn.2.symm.trans hturn.1
  induction order with
  | nil => rfl
  | cons j order ih =>
    obtain ⟨hfresh, hnodup⟩ := List.nodup_cons.1 hnodup
    change ((turns.filter fun turn => turn.1 = j) ++ inOrder order turns).filter _ = _
    rw [List.filter_append, hfilter, ih hnodup]
    by_cases h : j = i
    · subst h
      rw [if_pos rfl, if_neg hfresh, if_pos List.mem_cons_self, List.append_nil]
    · rw [if_neg h, List.nil_append]
      simp only [List.mem_cons, Ne.symm h, false_or]

/-- Each session still takes its own steps, in their order. -/
theorem stepsOf_inOrder {order : List ι} (hnodup : order.Nodup) {turns : List (ι × Step)}
    (hall : ∀ turn ∈ turns, turn.1 ∈ order) (i : ι) :
    stepsOf (inOrder order turns) i = stepsOf turns i := by
  unfold stepsOf
  rw [filter_inOrder hnodup]
  split
  · rfl
  case isFalse h =>
    have hnone : (turns.filter fun turn => turn.1 = i) = [] := by
      refine List.filter_eq_nil_iff.2 fun turn hturn heq => h ?_
      exact of_decide_eq_true heq ▸ hall turn hturn
    rw [hnone]

section

variable [Store σ] (c : ι → Catalog) (localOnly : ι → Bool) (t : Concurrent ι σ) (step : Step)

theorem sessions_turn_self (i : ι) : (t.turn c localOnly i step).sessions i =
    (step.answer (c i) (localOnly i) (t.sessions i, t.store)).2.1 :=
  Function.update_self i _ t.sessions

theorem answers_turn_self (i : ι) : (t.turn c localOnly i step).answers i =
    t.answers i ++ [⟨step, (step.answer (c i) (localOnly i) (t.sessions i, t.store)).1⟩] :=
  Function.update_self i _ t.answers

theorem sessions_turn_of_ne {i j : ι} (h : i ≠ j) :
    (t.turn c localOnly j step).sessions i = t.sessions i :=
  Function.update_of_ne h _ t.sessions

theorem answers_turn_of_ne {i j : ι} (h : i ≠ j) :
    (t.turn c localOnly j step).answers i = t.answers i :=
  Function.update_of_ne h _ t.answers

end

variable {A : ι → Identity → Prop} {B : Identity → Prop} (c : ι → Catalog) (localOnly : ι → Bool)
  {t : Concurrent ι Memory}

/-- A session keeps to its objects, and what its steps are not about stays as it is. -/
theorem within_turn (hs : ∀ k, (t.sessions k).Within (A k)) {i : ι} {step : Step}
    (hstep : step.Within (A i)) (hB : ∀ id, A i id → ¬B id) :
    (∀ k, ((t.turn c localOnly i step).sessions k).Within (A k)) ∧
      AgreeOn B t.store (t.turn c localOnly i step).store := by
  obtain ⟨_, hover⟩ := step.parallel_answer (Memory.related_apart hB t.store) (c i) (localOnly i)
    hstep (s := (t.sessions i, t.store)) (t := (t.sessions i, t.store))
    ⟨rfl, hs i, rfl, .refl B t.store⟩
  refine ⟨fun k => ?_, hover.stores.2⟩
  by_cases hk : k = i
  · subst hk
    rw [sessions_turn_self]
    exact hover.within
  · rw [sessions_turn_of_ne c localOnly t step hk]
    exact hs k

/-- What nobody's steps are about stays as it is. -/
theorem agreeOn_run {turns : List (ι × Step)} (hturns : ∀ turn ∈ turns, turn.2.Within (A turn.1))
    (hs : ∀ k, (t.sessions k).Within (A k)) (hB : ∀ i id, A i id → ¬B id) :
    AgreeOn B t.store (t.run c localOnly turns).store := by
  induction turns generalizing t with
  | nil => exact .refl B t.store
  | cons turn turns ih =>
    obtain ⟨hstep, hrest⟩ := List.forall_mem_cons.1 hturns
    obtain ⟨hs', hagree⟩ := within_turn c localOnly hs hstep (hB turn.1)
    exact hagree.trans (ih hrest hs')

/-- A session cannot tell whether the others are there. -/
theorem run_as_alone (hdisjoint : ∀ i j id, A i id → A j id → i = j) {turns : List (ι × Step)}
    (hturns : ∀ turn ∈ turns, turn.2.Within (A turn.1)) (hs : ∀ k, (t.sessions k).Within (A k))
    {i : ι} {m : Memory} (hm : AgreeOn (A i) m t.store) :
    let x := alone (c i) (localOnly i) (stepsOf turns i) (t.sessions i, m)
    (t.run c localOnly turns).answers i = t.answers i ++ x.1 ∧
      (t.run c localOnly turns).sessions i = x.2.1 ∧
      AgreeOn (A i) x.2.2 (t.run c localOnly turns).store := by
  induction turns generalizing t m with
  | nil => exact ⟨(List.append_nil _).symm, rfl, hm⟩
  | cons turn turns ih =>
    obtain ⟨j, step⟩ := turn
    obtain ⟨hstep, hrest⟩ := List.forall_mem_cons.1 hturns
    by_cases hj : j = i
    · subst hj
      obtain ⟨hs', _⟩ := within_turn (B := fun _ => False) c localOnly hs hstep fun _ _ h => h
      obtain ⟨out, ⟨_, m'⟩, ⟨s, store⟩, hx, hy, rfl, _, hm'⟩ :=
        (step.parallel_answer (Memory.related_agreeOn (A j)) (c j) (localOnly j) hstep).exists_end
          (s := (t.sessions j, m)) (t := (t.sessions j, t.store)) ⟨rfl, hs j, hm⟩
      have hstore : (t.turn c localOnly j step).store = store :=
        congrArg (fun x => x.2.2) hy
      rw [stepsOf_cons_self]
      unfold alone
      rw [hx]
      obtain ⟨hanswers, hsession, hagree⟩ := ih hrest hs' (m := m') (by rw [hstore]; exact hm')
      rw [sessions_turn_self, hy] at hanswers hsession hagree
      rw [answers_turn_self, hy, List.append_assoc] at hanswers
      exact ⟨hanswers, hsession, hagree⟩
    · obtain ⟨hs', hagree⟩ := within_turn c localOnly hs hstep
        fun id hid hid' => hj (hdisjoint j i id hid hid')
      have hrun := ih hrest hs' (hm.trans hagree)
      rw [sessions_turn_of_ne c localOnly t step (Ne.symm hj),
        answers_turn_of_ne c localOnly t step (Ne.symm hj)] at hrun
      rw [stepsOf_cons_of_ne hj]
      exact hrun

/-- Sessions that work on different objects are answered as if each were alone, whatever the order
of their turns, and the store comes to hold what it holds if they work one after the other. -/
theorem turns_apart (hdisjoint : ∀ i j id, A i id → A j id → i = j) (sessions : ι → Session)
    (hsessions : ∀ i, (sessions i).Within (A i)) (turns : List (ι × Step))
    (hturns : ∀ turn ∈ turns, turn.2.Within (A turn.1)) (m : Memory) :
    (∀ i, ((start sessions m).run c localOnly turns).answers i =
        (alone (c i) (localOnly i) (stepsOf turns i) (sessions i, m)).1 ∧
      ((start sessions m).run c localOnly turns).sessions i =
        (alone (c i) (localOnly i) (stepsOf turns i) (sessions i, m)).2.1) ∧
    ∀ order : List ι, order.Nodup → (∀ turn ∈ turns, turn.1 ∈ order) →
      ((start sessions m).run c localOnly turns).store.objects =
        ((start sessions m).run c localOnly (inOrder order turns)).store.objects := by
  constructor
  · intro i
    obtain ⟨hanswers, hsession, _⟩ := run_as_alone c localOnly hdisjoint (t := start sessions m)
      hturns hsessions (.refl (A i) m)
    exact ⟨hanswers, hsession⟩
  · intro order hnodup hall
    have hturns' : ∀ turn ∈ inOrder order turns, turn.2.Within (A turn.1) := by
      intro turn hturn
      obtain ⟨i, _, hturn⟩ := List.mem_flatMap.1 hturn
      exact hturns turn (List.mem_of_mem_filter hturn)
    refine Table.ext_get? fun id => ?_
    by_cases hid : ∃ i, A i id
    · -- both runs agree with the session that the object belongs to, when it is alone
      obtain ⟨i, hid⟩ := hid
      have hrun : ∀ turns, (∀ turn ∈ turns, turn.2.Within (A turn.1)) →
          ((start sessions m).run c localOnly turns).store.objects.get? id =
            (alone (c i) (localOnly i) (stepsOf turns i) (sessions i, m)).2.2.objects.get? id :=
        fun _ h => (run_as_alone c localOnly hdisjoint (t := start sessions m) h hsessions
          (.refl (A i) m)).2.2.objects id hid
      rw [hrun turns hturns, hrun _ hturns', stepsOf_inOrder hnodup hall]
    · have hrun : ∀ turns, (∀ turn ∈ turns, turn.2.Within (A turn.1)) →
          ((start sessions m).run c localOnly turns).store.objects.get? id = m.objects.get? id :=
        fun _ h => (agreeOn_run (B := fun id => ¬∃ i, A i id) c localOnly (t := start sessions m) h
          hsessions fun i id hi hnot => hnot ⟨i, hi⟩).objects id hid
      rw [hrun turns hturns, hrun _ hturns']

def settableCatalog : Catalog := ⟨Table.empty.insert "Counter" Service.settable⟩

/-- Two sessions, each about a counter of its own. -/
def twoCounters : List (Bool × Step) :=
  [(false, .create 0 "Counter" (some (counterId 1))), (true, .load "Counter" (counterId 2)),
    (false, .work (counterId 1) (.set "count" (.int 4))),
    (true, .invoke (counterId 2) "set" .null), (false, .commit),
    (true, .work (counterId 2) (.get "count")), (true, .delete (counterId 2)),
    (false, .work (counterId 1) (.invalidate "count")), (true, .commit),
    (false, .invoke (counterId 1) "set" .null), (false, .work (counterId 1) (.get "count")),
    (false, .commit)]

/-- What the counters say and store is the same if the second one goes first. In the end the first
one holds what its method has set, and the second one is gone. -/
theorem turns_apart_twoCounters :
    let counter : Bool → Identity := fun i => counterId (if i then 2 else 1)
    let concurrent := (start (fun _ => Session.empty 0) Memory.empty).run
      (fun _ => settableCatalog) (fun _ => false)
    (∀ i j id, id = counter i → id = counter j → i = j) ∧
    (∀ i, (Session.empty 0).Within (· = counter i)) ∧
    (∀ turn ∈ twoCounters, turn.2.Within (· = counter turn.1)) ∧
    (∀ i, (concurrent twoCounters).answers i = (alone settableCatalog false
      (stepsOf twoCounters i) (Session.empty 0, Memory.empty)).1) ∧
    (concurrent twoCounters).store.objects =
      (concurrent (inOrder [true, false] twoCounters)).store.objects ∧
    (concurrent twoCounters).store.objects.entries =
      [(counterId 1, Table.empty.insert 0 (Json.int 5).text.toUTF8)] := by
  intro counter concurrent
  have hdisjoint : ∀ i j id, id = counter i → id = counter j → i = j := by
    rintro i j _ rfl h
    revert h
    cases i <;> cases j <;> decide
  have hsessions : ∀ i, (Session.empty 0).Within (· = counter i) := fun _ => .empty 0
  have hturns : ∀ turn ∈ twoCounters, turn.2.Within (· = counter turn.1) := by
    simp [twoCounters, Step.Within, counter]
  have happly := turns_apart (fun _ => settableCatalog) (fun _ => false) hdisjoint
    (fun _ => Session.empty 0) hsessions twoCounters hturns Memory.empty
  exact ⟨hdisjoint, hsessions, hturns, fun i => (happly.1 i).1,
    happly.2 [true, false] (by decide) (by decide), rfl⟩

end Concurrent
end ObjectSpace
