import ObjectSpace.Proofs.Session.Interleaving
import ObjectSpace.Proofs.Session.Reload
import ObjectSpace.Proofs.Session.Through

/-!
# Objects that are made again

An object is deleted, and later another one is made under its identity. Making it withdraws a
deletion that still waits, so the new object writes its fields over the slots of the old one. Only
where the deletion has reached the store in between do the slots hold the fields of the new object
and nothing else.
-/

namespace ObjectSpace
namespace Session

open Success
open Resident (Overwrites)
open Store (Tracks)

/-- The step makes the object or brings it in. -/
def Step.BringsIn (id : Identity) : Step → Prop
  | .create fresh classId none => classId = id.classId ∧ fresh = id.object
  | .create _ _ (some id') | .load _ id' => id' = id
  | _ => False

/-- The step neither makes the object anew, nor deletes or calls it, nor lets it forget a field. -/
def Step.Leaves (id : Identity) : Step → Prop
  | .create fresh classId id? => ¬(Step.create fresh classId id?).BringsIn id
  | .load _ _ | .commit => True
  | .delete id' | .invoke id' _ _ => id' ≠ id
  | .work id' r => id' = id → ∀ name, r ≠ .invalidate name

/-- What was marked on an object of this class when the step was taken. -/
def Taken.marks (id : Identity) (c : Class) : Taken → List Mark
  | ⟨.work id' r, .ok a⟩ => if id' = id then r.marks c a else []
  | _ => []

variable {σ : Type} [Store σ] {c : Catalog} {localOnly : Bool} {id : Identity} {s s' : Session}
  {store store' : σ} {p : Option Resident → σ → Prop}

/-! ## Steps about other objects -/

omit [Store σ] in
theorem ne_of_not_bringsIn {fresh : UInt64} {classId : String} {id? : Option Identity}
    {id' : Identity} (hnot : ¬(Step.create fresh classId id?).BringsIn id)
    (h : s.identityFor localOnly fresh classId id? = .ok id') : id' ≠ id := by
  cases id? with
  | some given => exact identityFor_some_eq_ok h ▸ hnot
  | none =>
    dsimp only [identityFor] at h
    split at h <;> cases h
    rintro rfl
    exact hnot ⟨rfl, rfl⟩

theorem Holds.create (h : Holds id p (s, store)) {fresh : UInt64} {classId : String}
    {id? : Option Identity} (hnot : ¬(Step.create fresh classId id?).BringsIn id) :
    Holds id p (perform c localOnly (.create fresh classId id?) (s, store)) := by
  unfold perform
  dsimp only
  split
  case h_1 hs =>
    obtain ⟨hid, cls, _, rfl⟩ := create_eq_ok hs
    exact h.insert (o := .created _ cls) (ne_of_not_bringsIn hnot hid) _
  case h_2 => exact h

theorem Holds.load (h : Holds id p (s, store)) {classId : String} {id' : Identity}
    (hid : id' = id → s.isResident id = true) :
    Holds id p (perform c localOnly (.load classId id') (s, store)) := by
  unfold perform
  dsimp only
  split
  case h_1 hs =>
    rcases load_eq_ok hs with ⟨_, rfl⟩ | ⟨cls, habsent, _, rfl⟩
    · exact h
    · refine h.insert (o := .loaded id' cls) ?_ s.deletions
      rintro rfl
      cases habsent.symm.trans (hid rfl)
  case h_2 => exact h

theorem Holds.delete (h : Holds id p (s, store)) {id' : Identity} (hne : id' ≠ id) :
    Holds id p (perform c localOnly (.delete id') (s, store)) where
  keyed := h.keyed.delete id'
  object := by
    have hobject : (s.objects.erase id').get? id = s.object? id :=
      (Table.get?_erase_eq _ _ _).trans (if_neg (Ne.symm hne))
    change p ((s.objects.erase id').get? id) store
    rw [hobject]
    exact h.object

theorem Holds.work (h : Holds id p (s, store)) (hlasting : Lasting id p) {id' : Identity}
    (hne : id' ≠ id) (r : Request) :
    Holds id p (perform c localOnly (.work id' r) (s, store)) :=
  (keeps_onObject hne (fun o? => r.parallel (hlasting.others o?) c.registry)
    (s := (s, store)) ⟨rfl, h⟩).2.2

theorem Holds.invoke (h : Holds id p (s, store)) (hlasting : Lasting id p) {id' : Identity}
    (hne : id' ≠ id) (method : String) (arg : Value) :
    Holds id p (perform c localOnly (.invoke id' method arg) (s, store)) :=
  (keeps_invokeLocal hlasting hne c method arg (s := (s, store)) ⟨rfl, h⟩).2.2

/-- Only a deletion of the object queues it. -/
theorem Transition.unqueued {r : Registry} {step : Step} (h : Transition r s step s')
    (hstep : step ≠ .delete id) (hqueued : s.deletions.contains id = false) :
    s'.deletions.contains id = false := by
  cases h with
  | work h =>
    rw [← Bool.not_eq_true] at hqueued ⊢
    exact fun hid => hqueued (h.deletions id hid)
  | @create fresh classId id? id' cls hc =>
    change Table.contains (Table.erase s.deletions id') id = false
    rw [KeySet.contains_erase, hqueued, Bool.and_false]
  | load hc => exact hqueued
  | @delete id' =>
    have hne : id ≠ id' := fun heq => hstep (heq ▸ rfl)
    change Table.contains (KeySet.add s.deletions id') id = false
    rw [KeySet.contains_add, decide_eq_false hne, Bool.false_or, hqueued]

/-! ## The new object -/

section

variable [LawfulStore σ] {cls : Class} {start : Slots} {values : Table UInt32 Value}
  {t : Session × σ}

/-- The object is in the session and overwrites what was in its slots at the start. -/
structure Renewed (id : Identity) (cls : Class) (start : Slots) (values : Table UInt32 Value)
    (t : Session × σ) : Prop where
  holds : Holds id (fun o? store => ∃ o, o? = some o ∧
    o.Overwrites cls start values (LawfulStore.slots store id)) t
  unqueued : t.1.deletions.contains id = false

theorem lasting_overwrites (id : Identity) (cls : Class) (start : Slots)
    (values : Table UInt32 Value) : Lasting id fun (o? : Option Resident) (store : σ) =>
      ∃ o, o? = some o ∧ o.Overwrites cls start values (LawfulStore.slots store id) where
  flush o store hid h := by
    obtain ⟨_, ho, h⟩ := h
    cases ho
    subst hid
    exact ⟨_, rfl, h.fate (Resident.fate_flush (Store.tracks_slots _) store)⟩
  others o? := (Store.tracks_slots id).others
    fun slots => ∃ o, o? = some o ∧ o.Overwrites cls start values slots

/-- The object is worked on. -/
theorem Renewed.work (h : Renewed id cls start values (s, store)) {r : Request}
    (hforget : ∀ name, r ≠ .invalidate name) :
    let x := (Step.work id r).answer c localOnly (s, store)
    Renewed id cls start ((Taken.marks id cls ⟨.work id r, x.1⟩).foldl Mark.assign values)
      x.2 := by
  obtain ⟨o, ho, hover⟩ := h.holds.object
  obtain rfl : o.identity = id := h.holds.keyed id o ho
  dsimp only at hover
  have hanswer :=
    hover.answer (s := store) (Store.tracks_slots (σ := σ) o.identity) c.registry hforget
  have hchange := r.change (o := o) c.registry store
  unfold Step.answer onObject
  dsimp only at ho ⊢
  rw [ho]
  dsimp only
  rcases hr : r.run c.registry (o, store) with ⟨out, o', store'⟩
  rw [hr] at hanswer hchange
  have hmarks : Taken.marks o.identity cls ⟨.work o.identity r, out.mapError .state⟩ =
      r.marked cls out := by
    cases out with
    | ok a => exact if_pos rfl
    | fail e => rfl
    | crash => rfl
  rw [hmarks]
  refine ⟨⟨h.holds.keyed.putBack o', o', ?_, hanswer⟩, h.unqueued⟩
  exact (object?_putBack _ _ _).trans (if_pos hchange.identity.symm)

theorem Renewed.answer (c : Catalog) (localOnly : Bool) (h : Renewed id cls start values t)
    {step : Step} (hstep : step.Leaves id) :
    let x := step.answer c localOnly t
    Renewed id cls start ((Taken.marks id cls ⟨step, x.1⟩).foldl Mark.assign values) x.2 := by
  obtain ⟨s, store⟩ := t
  have hlasting := lasting_overwrites (σ := σ) id cls start values
  have hqueued : step ≠ .delete id →
      (step.answer c localOnly (s, store)).2.1.deletions.contains id = false := by
    intro hne
    rw [Step.state_answer]
    exact (transition_perform c localOnly h.holds.keyed store step).unqueued hne h.unqueued
  cases step with
  | create fresh classId id? =>
    refine ⟨?_, hqueued nofun⟩
    rw [Step.state_answer]
    exact h.holds.create hstep
  | load classId id' =>
    refine ⟨?_, hqueued nofun⟩
    rw [Step.state_answer]
    refine h.holds.load fun _ => ?_
    obtain ⟨o, ho, _⟩ := h.holds.object
    exact Table.contains_iff.2 ⟨o, ho⟩
  | delete id' =>
    refine ⟨?_, hqueued fun heq => hstep (Step.delete.inj heq)⟩
    rw [Step.state_answer]
    exact h.holds.delete hstep
  | work id' r =>
    by_cases hid : id' = id
    · subst hid
      exact h.work (hstep rfl)
    · have hmarks : ∀ out, Taken.marks id cls ⟨.work id' r, out⟩ = [] := by
        intro out
        cases out with
        | ok a => exact if_neg hid
        | fail e => rfl
        | crash => rfl
      dsimp only
      rw [hmarks]
      refine ⟨?_, hqueued nofun⟩
      rw [Step.state_answer]
      exact h.holds.work hlasting hid r
  | invoke id' method arg =>
    refine ⟨?_, hqueued nofun⟩
    rw [Step.state_answer]
    exact h.holds.invoke hlasting hstep method arg
  | commit =>
    refine ⟨?_, hqueued nofun⟩
    rw [Step.state_answer]
    exact h.holds.commit hlasting h.unqueued

theorem Renewed.alone (c : Catalog) (localOnly : Bool) (h : Renewed id cls start values t)
    {steps : List Step} (hsteps : ∀ step ∈ steps, step.Leaves id) :
    let x := Session.alone c localOnly steps t
    Renewed id cls start ((x.1.flatMap (Taken.marks id cls)).foldl Mark.assign values) x.2 := by
  induction steps generalizing t values with
  | nil => exact h
  | cons step steps ih =>
    obtain ⟨hstep, hsteps⟩ := List.forall_mem_cons.1 hsteps
    have hrest := ih (h.answer c localOnly hstep) hsteps
    unfold Session.alone
    dsimp only
    rw [List.flatMap_cons, List.foldl_append]
    exact hrest

/-- Behind a commit that does not name the object its slots hold what was set. -/
theorem Renewed.committed (h : Renewed id cls start values (s, store)) {report : CommitReport}
    (hcommit : commit (s, store) = (.ok report, (s', store'))) (hreport : id ∉ report.names) :
    (∀ i, WrittenOver cls values start (LawfulStore.slots store' id) i) ∧
      ((∀ f ∈ cls.fields, f.shape.Proper) → ∀ i v, values.get? i = some v →
        ∃ f, cls.fieldAt? i = some f ∧ f.shape.Canonical v) := by
  have hholds := h.holds.commit (lasting_overwrites id cls start values) h.unqueued
  rw [hcommit] at hholds
  obtain ⟨o, ho, hover⟩ := hholds.object
  have hclean : o.isDirty = false := by
    rw [← Bool.not_eq_true]
    exact fun hdirty => hreport (named_of_commit h.holds.keyed hcommit ho hdirty)
  exact ⟨fun i => hover.written i (Resident.get?_pending_of_clean hclean i), hover.canonical⟩

theorem renewed_of_create (hkeyed : s.Keyed) {fresh : UInt64} {classId : String} {id' : Identity}
    (h : s.create c.registry localOnly fresh classId (some id) = .ok (id', s')) (store : σ) :
    ∃ cls, c.registry.find id.classId = .ok cls ∧ id.validate = .ok () ∧
      Renewed id cls (LawfulStore.slots store id) {} (s', store) := by
  obtain ⟨hgiven, cls, hcls, rfl⟩ := create_eq_ok h
  obtain rfl := identityFor_some_eq_ok hgiven
  have hclass := classId_of_identityFor hgiven
  obtain ⟨_, _, hgiven⟩ := bind_eq_ok.1 hgiven
  obtain ⟨_, hvalid, _⟩ := bind_eq_ok.1 hgiven
  have hover := Resident.overwrites_of_clean (o := .created id' cls) rfl
    (LawfulStore.slots store id')
  refine ⟨cls, hclass.symm ▸ hcls, mapError_eq_ok.1 hvalid, ⟨?_, ?_⟩, ?_⟩
  · exact hkeyed.insert (o := .created id' cls) rfl _
  · exact ⟨_, (Table.get?_insert _ _ _ _).trans (if_pos rfl), hover⟩
  · change Table.contains (Table.erase s.deletions id') id' = false
    rw [KeySet.contains_erase, decide_eq_true rfl]
    rfl

end

/-! ## The old object -/

theorem WorksOn.deletions {R : Resident → Resident → Prop} (h : WorksOn R id s s') :
    s'.deletions = s.deletions := by
  cases h <;> rfl

/-- What waits to be deleted waits for a commit, unless the object is made again. -/
theorem queued_perform {step : Step} (hnot : ¬step.BringsIn id) (hcommit : step ≠ .commit)
    (hqueued : s.deletions.contains id = true) (store : σ) :
    (perform c localOnly step (s, store)).1.deletions.contains id = true := by
  cases step with
  | create fresh classId id? =>
    unfold perform
    dsimp only
    split
    case h_2 => exact hqueued
    case h_1 hs =>
      obtain ⟨hid, cls, _, rfl⟩ := create_eq_ok hs
      have hne := Ne.symm (ne_of_not_bringsIn hnot hid)
      change Table.contains (Table.erase s.deletions _) id = true
      rw [KeySet.contains_erase, decide_eq_false hne, hqueued]
      rfl
  | load classId id' =>
    unfold perform
    dsimp only
    split
    case h_2 => exact hqueued
    case h_1 hs =>
      rcases load_eq_ok hs with ⟨_, rfl⟩ | ⟨cls, _, _, rfl⟩ <;> exact hqueued
  | delete id' =>
    change Table.contains (KeySet.add s.deletions id') id = true
    rw [KeySet.contains_add, hqueued, Bool.or_true]
  | work id' r =>
    have hworks : WorksOn (fun _ _ => True) id' s
        (perform c localOnly (.work id' r) (s, store)).1 :=
      worksOn_onObject fun _ => trivial
    rw [hworks.deletions, hqueued]
  | invoke id' method arg =>
    have hworks : WorksOn (fun _ _ => True) id' s
        (perform c localOnly (.invoke id' method arg) (s, store)).1 :=
      worksOn_invokeLocal arg fun _ _ _ _ => trivial
    rw [hworks.deletions, hqueued]
  | commit => exact absurd rfl hcommit

theorem invokeLocal_of_absent (habsent : s.object? id = none) (method : String) (arg : Value) :
    (invokeLocal c id method arg (s, store)).2 = (s, store) := by
  have hcopy : ∀ op e, invokeCopy c.registry op id e (s, store) =
      (.fail (.notResident id), (s, store)) := by
    intro op e
    unfold invokeCopy
    dsimp only
    rw [habsent]
  rw [invokeLocal_apply]
  split
  · rfl
  · split
    · rfl
    · rw [hcopy]

/-- What holds as long as the object is away. -/
theorem Holds.away (h : Holds id p (s, store)) (hlasting : Lasting id p)
    (habsent : s.object? id = none) {step : Step} (hnot : ¬step.BringsIn id)
    (hcommit : step = .commit → s.deletions.contains id = false) :
    Holds id p (perform c localOnly step (s, store)) := by
  have hnone : p none store := by
    have hobject := h.object
    rwa [habsent] at hobject
  cases step with
  | create fresh classId id? => exact h.create hnot
  | load classId id' => exact h.load fun hid => absurd hid hnot
  | commit => exact h.commit hlasting (hcommit rfl)
  | delete id' =>
    by_cases hid : id' = id
    · subst hid
      refine ⟨h.keyed.delete id', ?_⟩
      have hobject : (s.objects.erase id').get? id' = none :=
        (Table.get?_erase_eq _ _ _).trans (if_pos rfl)
      change p ((s.objects.erase id').get? id') store
      exact hobject.symm ▸ hnone
    · exact h.delete hid
  | work id' r =>
    by_cases hid : id' = id
    · subst hid
      unfold perform onObject
      dsimp only
      rw [habsent]
      exact h
    · exact h.work hlasting hid r
  | invoke id' method arg =>
    by_cases hid : id' = id
    · subst hid
      unfold perform
      dsimp only
      rwa [invokeLocal_of_absent habsent]
    · exact h.invoke hlasting hid method arg

variable [LawfulStore σ]

/-- The object is away, and its deletion waits for a commit or has reached the store. -/
structure Gone (id : Identity) (t : Session × σ) : Prop where
  keyed : t.1.Keyed
  absent : t.1.object? id = none
  deleted : t.1.deletions.contains id = true ∨ LawfulStore.slots t.2 id = {}

theorem gone_delete (hkeyed : s.Keyed) (store : σ) : Gone id ((s.delete id).2, store) where
  keyed := hkeyed.delete id
  absent := (Table.get?_erase_eq _ _ _).trans (if_pos rfl)
  deleted := by
    refine .inl ?_
    change Table.contains (KeySet.add s.deletions id) id = true
    rw [KeySet.contains_add, decide_eq_true rfl, Bool.true_or]

theorem lasting_absent (id : Identity) (q : Slots → Prop) :
    Lasting id fun (o? : Option Resident) (store : σ) =>
      o? = none ∧ q (LawfulStore.slots store id) where
  flush _ _ _ h := nomatch h.1
  others o? := (Store.tracks_slots id).others fun slots => o? = none ∧ q slots

/-- A commit deletes the object, or its deletion waits for the next one. -/
theorem Gone.commit (h : Gone id (s, store)) {report : CommitReport}
    (hcommit : commit (s, store) = (.ok report, (s', store'))) : Gone id (s', store') := by
  have hworks : Works s (Session.commit (s, store)).2.1 := works_commit h.keyed
  rw [hcommit] at hworks
  have habsent : s'.object? id = none := by
    refine Table.get?_eq_none_iff.2 ((hworks.isResident id).trans ?_)
    exact Table.get?_eq_none_iff.1 h.absent
  refine ⟨hworks.keyed h.keyed, habsent, ?_⟩
  cases hqueued : s.deletions.contains id with
  | true =>
    exact (held_commit (Store.tracks_slots id) hqueued hcommit).imp_left And.right
  | false =>
    have hslots := h.deleted.resolve_left (Bool.eq_false_iff.1 hqueued)
    have hholds : Holds id (fun o? store => o? = none ∧ LawfulStore.slots store id = {})
        (Session.commit (s, store)).2 :=
      Holds.commit ⟨h.keyed, h.absent, hslots⟩ (lasting_absent id (· = {})) hqueued
    rw [hcommit] at hholds
    exact .inr hholds.object.2

theorem Gone.answer {t : Session × σ} (h : Gone id t) {step : Step} (hnot : ¬step.BringsIn id)
    (hcrash : (step.answer c localOnly t).1 ≠ .crash) : Gone id (step.answer c localOnly t).2 := by
  obtain ⟨s, store⟩ := t
  by_cases hstep : step = .commit
  · subst hstep
    change Gone id (Session.commit (s, store)).2
    change (Session.commit.mapError _ (s, store)).1 ≠ .crash at hcrash
    unfold Run.mapError at hcrash
    rcases hcommit : Session.commit (s, store) with ⟨out, s', store'⟩
    rw [hcommit] at hcrash
    cases out with
    | ok report => exact h.commit hcommit
    | fail e => exact e.elim
    | crash => exact absurd rfl hcrash
  · rw [Step.state_answer]
    have haway : ∀ q : Slots → Prop, q (LawfulStore.slots store id) →
        Holds id (fun o? store => o? = none ∧ q (LawfulStore.slots store id))
          (perform c localOnly step (s, store)) := fun q hq =>
      Holds.away ⟨h.keyed, h.absent, hq⟩ (lasting_absent id q) h.absent hnot
        fun heq => absurd heq hstep
    have hkept := haway (fun _ => True) trivial
    refine ⟨hkept.keyed, hkept.object.1, ?_⟩
    rcases h.deleted with hqueued | hslots
    · exact .inl (queued_perform hnot hstep hqueued store)
    · exact .inr (haway (· = {}) hslots).object.2

theorem Gone.alone {t : Session × σ} (h : Gone id t) {steps : List Step}
    (hsteps : ∀ step ∈ steps, ¬step.BringsIn id)
    (hcalm : ∀ x ∈ (Session.alone c localOnly steps t).1, x.2 ≠ .crash) :
    Gone id (Session.alone c localOnly steps t).2 := by
  induction steps generalizing t with
  | nil => exact h
  | cons step steps ih =>
    obtain ⟨hstep, hsteps⟩ := List.forall_mem_cons.1 hsteps
    obtain ⟨hfirst, hrest⟩ := List.forall_mem_cons.1 hcalm
    exact ih (h.answer hstep hfirst) hsteps hrest

theorem gone_of_deleted {t t' : Session × σ} (hkeyed : t.1.Keyed) {steps : List Step}
    {answers : List Taken}
    (h : Session.alone c localOnly (.delete id :: steps) t = (answers, t'))
    (hsteps : ∀ step ∈ steps, ¬step.BringsIn id) (hcalm : ∀ x ∈ answers, x.2 ≠ .crash) :
    Gone id t' := by
  unfold Session.alone at h
  obtain ⟨rfl, rfl⟩ := Prod.mk.inj h
  exact (gone_delete hkeyed t.2).alone hsteps (List.forall_mem_cons.1 hcalm).2

/-! ## Both -/

omit [LawfulStore σ] in
theorem keyed_alone (c : Catalog) (localOnly : Bool) {t : Session × σ} (hkeyed : t.1.Keyed)
    (steps : List Step) : (alone c localOnly steps t).2.1.Keyed := by
  induction steps generalizing t with
  | nil => exact hkeyed
  | cons step steps ih =>
    have hstep := transition_perform c localOnly hkeyed t.2 step
    exact ih (step.state_answer c localOnly t ▸ hstep.keyed hkeyed)

/-- The store answers whoever reads the object. -/
def Answers (id : Identity) (store : σ) : Prop :=
  ∀ i, ∃ slot store', Store.get id i store = (.ok slot, store')

theorem Answers.get (h : Answers id store) (i : UInt32) :
    ∃ store', Store.get id i store = (.ok ((LawfulStore.slots store id).get? i), store') := by
  obtain ⟨slot, store', hget⟩ := h i
  obtain rfl := LawfulStore.get_answer hget
  exact ⟨store', hget⟩

section

variable {cls : Class} {name : String} {f : Field} {values : Table UInt32 Value} {later : σ}

/-- A field that was not set has its default for whoever loads the object. -/
theorem get_fresh_unset (hf : cls.field? name = some f) (hanswers : Answers id later)
    (hwritten : WrittenOver cls values {} (LawfulStore.slots later id) f.index)
    (hunset : values.get? f.index = none) (partition : UInt32) :
    (onObject id (Resident.get name) ({ empty partition with
      objects := (empty partition).objects.insert id (.loaded id cls) }, later)).1 =
        .ok f.default := by
  obtain ⟨later', hget⟩ := hanswers.get f.index
  rw [(writtenOver_of_none hunset).1 hwritten] at hget
  exact get_fresh hf hget partition

/-- A field that was set has its value. -/
theorem get_fresh_set (hf : cls.field? name = some f) (hanswers : Answers id later)
    (hwritten : WrittenOver cls values {} (LawfulStore.slots later id) f.index) {v : Value}
    (hset : values.get? f.index = some v) (hportable : f.shape.Portable 0 v)
    (hcanonical : ∃ g, cls.fieldAt? f.index = some g ∧ g.shape.Canonical v) (partition : UInt32) :
    ∃ y, (onObject id (Resident.get name) ({ empty partition with
      objects := (empty partition).objects.insert id (.loaded id cls) }, later)).1 = .ok y ∧
        y.same v = true := by
  have hfield : ∀ g, cls.fieldAt? f.index = some g → g = f := by
    intro g hg
    obtain ⟨hmem, hindex⟩ := Class.fieldAt?_eq_some_iff.1 hg
    exact Class.eq_of_index_eq hmem (Class.mem_of_field? hf) hindex
  obtain ⟨g, payload, hg, hencode, hslot⟩ := (writtenOver_of_some hset).1 hwritten
  obtain ⟨g', hg', hcanonical⟩ := hcanonical
  obtain rfl := hfield g hg
  obtain rfl := hfield g' hg'
  obtain ⟨_, hdecode⟩ := Shape.decode_of_encode hcanonical hportable hencode
  obtain ⟨y, hy, hsame⟩ := hdecode g'.name
  obtain ⟨later', hget⟩ := hanswers.get g'.index
  rw [hslot] at hget
  refine ⟨y, ?_, hsame⟩
  rw [get_fresh hf hget]
  dsimp only [Proxy.slotValue]
  rw [hy]
  rfl

end

/-- An object that is made again is written over the slots of the old one. If no step in between
has brought in the old one, and its deletion waits no longer when the new one is made, then there
are no such slots: whoever loads the object later finds the values that were set since it was made,
and defaults otherwise. -/
theorem slots_of_made_again (c : Catalog) (localOnly : Bool) {t : Session × σ} (hkeyed : t.1.Keyed)
    {id : Identity} {between after : List Step} {answers₁ answers₂ : List Taken}
    {s₁ s₂ s₃ s₄ : Session} {store₁ store₂ store₃ : σ} {fresh : UInt64} {classId : String}
    {id' : Identity} {report : CommitReport}
    (hdeleted : alone c localOnly (.delete id :: between) t = (answers₁, (s₁, store₁)))
    (hcreated : s₁.create c.registry localOnly fresh classId (some id) = .ok (id', s₂))
    (hafter : ∀ step ∈ after, step.Leaves id)
    (hset : alone c localOnly after (s₂, store₁) = (answers₂, (s₃, store₂)))
    (hcommit : commit (s₃, store₂) = (.ok report, (s₄, store₃))) (hreport : id ∉ report.names) :
    ∃ cls, c.registry.find id.classId = .ok cls ∧
      let values := Mark.values (answers₂.flatMap (Taken.marks id cls))
      (∀ i, WrittenOver cls values (LawfulStore.slots store₁ id) (LawfulStore.slots store₃ id) i) ∧
      ((∀ step ∈ between, ¬step.BringsIn id) → (∀ x ∈ answers₁, x.2 ≠ .crash) →
        s₁.deletions.contains id = false → LawfulStore.slots store₁ id = {} ∧
        ∀ partition (later : σ), LawfulStore.slots later id = LawfulStore.slots store₃ id →
          Answers id later → ∃ s₅, load c.registry (empty partition) id.classId id = .ok s₅ ∧
          ∀ name f, cls.field? name = some f →
            (values.get? f.index = none →
              (onObject id (Resident.get name) (s₅, later)).1 = .ok f.default) ∧
            ∀ v, values.get? f.index = some v → (∀ g ∈ cls.fields, g.shape.Proper) →
              f.shape.Portable 0 v →
              ∃ y, (onObject id (Resident.get name) (s₅, later)).1 = .ok y ∧ y.same v = true) := by
  have hkeyed₁ := keyed_alone c localOnly hkeyed (.delete id :: between)
  rw [hdeleted] at hkeyed₁
  obtain ⟨cls, hcls, hvalid, hrenewed⟩ := renewed_of_create hkeyed₁ hcreated store₁
  have hrenewed' := hrenewed.alone c localOnly hafter
  rw [hset] at hrenewed'
  obtain ⟨hwritten, hcanonical⟩ := hrenewed'.committed hcommit hreport
  refine ⟨cls, hcls, ?_⟩
  intro values
  refine ⟨hwritten, fun hbetween hcalm hqueued => ?_⟩
  have hgone := gone_of_deleted hkeyed hdeleted hbetween hcalm
  have hslots := hgone.deleted.resolve_left (Bool.eq_false_iff.1 hqueued)
  refine ⟨hslots, fun partition later hlater hanswers => ?_⟩
  refine ⟨_, load_absent hvalid hcls rfl, fun name f hf => ?_⟩
  have hwritten' : WrittenOver cls values {} (LawfulStore.slots later id) f.index := by
    have h := hwritten f.index
    rw [hslots, ← hlater] at h
    exact h
  exact ⟨fun hunset => get_fresh_unset hf hanswers hwritten' hunset partition,
    fun v hv hproper hportable => get_fresh_set hf hanswers hwritten' hv hportable
      (hcanonical hproper f.index v hv) partition⟩

/-- The service of notes, which have a count and a label. -/
def noteService : Service :=
  ⟨⟨"Note", [.of "count" 0 .int none, .of "label" 1 .str none], [], []⟩, by decide⟩

def noteCatalog : Catalog := ⟨Table.empty.insert "Note" noteService⟩

def noteId : Identity := ⟨"Note", 0, 1⟩

/-- A session that has made a note and committed it. -/
def withNote : Session × Memory := run noteCatalog false
  [.create 0 "Note" (some noteId), .work noteId (.set "count" (.int 4)),
    .work noteId (.set "label" (.str "old")), .commit] (empty 0, Memory.empty)

/-- The count of the note is set, and its label is only looked at. -/
def recounted : List Step :=
  [.work noteId (.get "label"), .work noteId (.set "count" (.int 7))]

theorem slots_of_made_again_note :
    ∃ answers₁ s₁ m₁ s₂ answers₂ s₃ m₂ s₄ m₃ s₅ y, withNote.1.Keyed ∧
      alone noteCatalog false [.delete noteId, .commit] withNote = (answers₁, (s₁, m₁)) ∧
      s₁.create noteCatalog.registry false 0 "Note" (some noteId) = .ok (noteId, s₂) ∧
      alone noteCatalog false recounted (s₂, m₁) = (answers₂, (s₃, m₂)) ∧
      commit (s₃, m₂) = (.ok ⟨1, 1, 0, []⟩, (s₄, m₃)) ∧
      (m₃.slots noteId).get? 1 = none ∧
      load noteCatalog.registry (empty 1) "Note" noteId = .ok s₅ ∧
      (onObject noteId (Resident.get "count") (s₅, m₃)).1 = .ok y ∧ y.same (.int 7) = true ∧
      (onObject noteId (Resident.get "label") (s₅, m₃)).1 = .ok (.str "") := by
  have hkeyed : withNote.1.Keyed :=
    (classed_run noteCatalog false (t := (empty 0, Memory.empty)) _ (keyed_empty 0)
      (classed_empty _ 0)).1
  have hafter : ∀ step ∈ recounted, step.Leaves noteId := by
    intro step hstep
    simp only [recounted, List.mem_cons, List.not_mem_nil, or_false] at hstep
    rcases hstep with rfl | rfl <;> exact fun _ => nofun
  obtain ⟨answers₁, s₁, m₁, s₂, answers₂, s₃, m₂, s₄, m₃, hdeleted, hcreated, hset, hcommit,
      hcalm, hqueued, hcount, hlabel⟩ :
      ∃ answers₁ s₁ m₁ s₂ answers₂ s₃ m₂ s₄ m₃,
        alone noteCatalog false [.delete noteId, .commit] withNote = (answers₁, (s₁, m₁)) ∧
        s₁.create noteCatalog.registry false 0 "Note" (some noteId) = .ok (noteId, s₂) ∧
        alone noteCatalog false recounted (s₂, m₁) = (answers₂, (s₃, m₂)) ∧
        commit (s₃, m₂) = (.ok ⟨1, 1, 0, []⟩, (s₄, m₃)) ∧ (∀ x ∈ answers₁, x.2 ≠ .crash) ∧
        s₁.deletions.contains noteId = false ∧
        (Mark.values (answers₂.flatMap (Taken.marks noteId noteService.schema))).get? 0 =
          some (.int 7) ∧
        (Mark.values (answers₂.flatMap (Taken.marks noteId noteService.schema))).get? 1 = none := by
    refine ⟨_, _, _, _, _, _, _, _, _, rfl, rfl, rfl, rfl, ?_, rfl, rfl, rfl⟩
    exact List.forall_mem_cons.2 ⟨nofun, List.forall_mem_singleton.2 nofun⟩
  obtain ⟨cls, hcls, hwritten, hrest⟩ := slots_of_made_again noteCatalog false hkeyed hdeleted
    hcreated hafter hset hcommit nofun
  obtain rfl : noteService.schema = cls := Except.ok.inj hcls
  obtain ⟨hslots, hread⟩ := hrest (by simp [Step.BringsIn]) hcalm hqueued
  obtain ⟨s₅, hload, hfields⟩ := hread 1 m₃ rfl fun i => ⟨_, _, rfl⟩
  have hproper : ∀ g ∈ noteService.schema.fields, g.shape.Proper := by
    intro g hg
    change g ∈ [Field.of "count" 0 .int none, .of "label" 1 .str none] at hg
    simp only [List.mem_cons, List.not_mem_nil, or_false] at hg
    rcases hg with rfl | rfl <;> exact fun _ _ hp => nomatch hp
  obtain ⟨y, hy, hsame⟩ := (hfields "count" _ rfl).2 (.int 7) hcount hproper
    (Shape.portable_int (by decide) 7)
  have hslot := (writtenOver_of_none hlabel).1 (hwritten 1)
  rw [hslots] at hslot
  exact ⟨answers₁, s₁, m₁, s₂, answers₂, s₃, m₂, s₄, m₃, s₅, y, hkeyed, hdeleted, hcreated, hset,
    hcommit, hslot, hload, hy, hsame, (hfields "label" _ rfl).1 hlabel⟩

/-- The note is made again before its deletion is committed. Its label was not set since, and is
still the old one. -/
theorem old_label_survives :
    ∃ answers₁ s₁ m₁ s₂ answers₂ s₃ m₂ s₄ m₃,
      alone noteCatalog false [.delete noteId] withNote = (answers₁, (s₁, m₁)) ∧
      s₁.create noteCatalog.registry false 0 "Note" (some noteId) = .ok (noteId, s₂) ∧
      alone noteCatalog false recounted (s₂, m₁) = (answers₂, (s₃, m₂)) ∧
      commit (s₃, m₂) = (.ok ⟨1, 1, 0, []⟩, (s₄, m₃)) ∧
      (Mark.values (answers₂.flatMap (Taken.marks noteId noteService.schema))).get? 1 = none ∧
      (m₃.slots noteId).get? 1 = some "\x22old\x22".toUTF8 :=
  ⟨_, _, _, _, _, _, _, _, _, rfl, rfl, rfl, rfl, rfl, by decide +kernel⟩

end Session
end ObjectSpace
