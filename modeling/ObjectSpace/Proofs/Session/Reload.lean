import ObjectSpace.Proofs.Codec.Payload
import ObjectSpace.Proofs.Session.Commit
import ObjectSpace.Proofs.Session.Step

/-!
# What is committed is read back

A field that is set waits to be written as long as its object is only read. A commit without
failures puts the encoding of its value into the slot of the field, and who loads the object later
reads the same value there.
-/

namespace ObjectSpace
namespace Session

open Success
open Resident (Reads Changes)

variable {s s' : Session} {r : Registry} {id : Identity}

/-! ## The classes of objects -/

/-- Every object is of the class that the registry has for it. -/
def Classed (r : Registry) (s : Session) : Prop :=
  ∀ id o, s.object? id = some o → r.find id.classId = .ok o.schema

theorem classed_empty (r : Registry) (partition : UInt32) : Classed r (empty partition) :=
  fun _ _ h => nomatch h

theorem Works.classed (h : Works s s') (hs : s.Classed r) : s'.Classed r := by
  intro id o' ho'
  obtain ⟨o, ho, hchanges⟩ := h.exists_object ho'
  rw [hs id o ho, hchanges.schema]

theorem Transition.classed {step : Step} (h : Transition r s step s') (hs : s.Classed r) :
    s'.Classed r := by
  cases h with
  | work h => exact h.classed hs
  | create hc => exact forall_object_insert hs hc _
  | load hc => exact forall_object_insert hs hc _
  | delete => exact forall_object_delete hs _

section

variable {σ : Type} [Store σ] {c : Catalog} {localOnly : Bool}

variable (c localOnly) in
theorem classed_run {t : Session × σ} (steps : List Step) (hkeyed : t.1.Keyed)
    (hs : t.1.Classed c.registry) :
    (run c localOnly steps t).1.Keyed ∧ (run c localOnly steps t).1.Classed c.registry := by
  induction steps generalizing t with
  | nil => exact ⟨hkeyed, hs⟩
  | cons step steps ih =>
    have hstep := transition_perform c localOnly hkeyed t.2 step
    exact ih (hstep.keyed hkeyed) (hstep.classed hs)

/-! ## Fields that are still to be written -/

/-- The field is to be written with this value, and nothing else is to come of its object. -/
structure Awaits (s : Session) (id : Identity) (i : UInt32) (x : Value) : Prop where
  object : ∃ o, s.object? id = some o ∧ o.state.dirty.contains i = true ∧
    o.state.cache.get? i = some x
  unqueued : s.deletions.contains id = false

/-- The step neither writes nor deletes the object, nor makes it anew. -/
def Step.Spares (c : Catalog) (id : Identity) : Step → Prop
  | .create fresh classId none => classId ≠ id.classId ∨ fresh ≠ id.object
  | .create _ _ (some id') => id' ≠ id
  | .load _ _ => True
  | .delete id' => id' ≠ id
  | .work id' r => id' = id → r.Reads
  | .invoke id' method _ => id' = id →
    ∀ op, c.operation id'.classId method = .ok op → op.Reads
  | .commit => False

variable {i : UInt32} {x : Value}

theorem Awaits.of_eq (h : s.Awaits id i x) (hobject : s'.object? id = s.object? id)
    (hdeletions : s'.deletions.contains id = s.deletions.contains id) : s'.Awaits id i x := by
  obtain ⟨o, ho, hstate⟩ := h.object
  exact ⟨⟨o, hobject.trans ho, hstate⟩, hdeletions.trans h.unqueued⟩

/-- Objects that are made or brought in take the place of no other. -/
theorem Awaits.insert (h : s.Awaits id i x) {id' : Identity} (hne : id' ≠ id) (o : Resident)
    {deletions : KeySet Identity} (hdeletions : Table.contains deletions id = false) :
    Awaits { s with objects := s.objects.insert id' o, deletions := deletions } id i x := by
  refine h.of_eq ?_ (hdeletions.trans h.unqueued.symm)
  exact (Table.get?_insert s.objects id' o id).trans (if_neg hne.symm)

theorem Awaits.other (h : s.Awaits id i x) (hkeyed : s.Keyed) {id' : Identity} (hne : id' ≠ id)
    (hw : WorksOn Changes id' s s') : s'.Awaits id i x := by
  cases hw with
  | stay => exact h
  | @putBack o o' ho hchanges =>
    have hid : o'.identity = id' := hchanges.identity.trans (hkeyed id' o ho)
    refine h.of_eq ?_ rfl
    rw [object?_putBack, hid, if_neg hne.symm]

theorem Awaits.reads (h : s.Awaits id i x) (hkeyed : s.Keyed) (hw : WorksOn Reads id s s') :
    s'.Awaits id i x := by
  cases hw with
  | stay => exact h
  | @putBack o o' ho hreads =>
    obtain ⟨o'', ho'', hdirty, hcached⟩ := h.object
    obtain rfl : o = o'' := Option.some.inj (ho.symm.trans ho'')
    have hid : o'.identity = id := hreads.changes.identity.trans (hkeyed id o ho)
    refine ⟨⟨o', ?_, ?_, hreads.cached hcached⟩, h.unqueued⟩
    · rw [object?_putBack, hid, if_pos rfl]
    · rw [hreads.dirty, hdirty]

theorem ne_of_identityFor {fresh : UInt64} {classId : String} {id? : Option Identity}
    {id' : Identity} (hspares : (Step.create fresh classId id?).Spares c id)
    (h : s.identityFor localOnly fresh classId id? = .ok id') : id' ≠ id := by
  cases id? with
  | some given =>
    obtain ⟨_, _, h⟩ := bind_eq_ok.1 h
    obtain ⟨_, _, h⟩ := bind_eq_ok.1 h
    cases h
    exact hspares
  | none =>
    dsimp only [identityFor] at h
    split at h <;> cases h
    rintro rfl
    exact hspares.elim (fun hne => hne rfl) fun hne => hne rfl

/-- What spares the object leaves it waiting. -/
theorem Awaits.perform (h : s.Awaits id i x) (hkeyed : s.Keyed) (store : σ) {step : Step}
    (hspares : step.Spares c id) : (perform c localOnly step (s, store)).1.Awaits id i x := by
  cases step with
  | create fresh classId id? =>
    unfold Session.perform
    dsimp only
    split
    case h_1 hs =>
      obtain ⟨cls, hcls, hs⟩ := bind_eq_ok.1 hs
      obtain ⟨id', hid, hs⟩ := bind_eq_ok.1 hs
      cases hs
      refine h.insert (ne_of_identityFor hspares hid) _ ?_
      rw [KeySet.contains_erase]
      exact Bool.and_eq_false_iff.2 (.inr h.unqueued)
    case h_2 => exact h
  | load classId id' =>
    unfold Session.perform
    dsimp only
    split
    case h_1 hs =>
      obtain ⟨_, _, hs⟩ := bind_eq_ok.1 hs
      obtain ⟨_, _, hs⟩ := bind_eq_ok.1 hs
      split at hs
      · cases hs
        exact h
      case isFalse habsent =>
        obtain ⟨cls, _, hs⟩ := bind_eq_ok.1 hs
        cases hs
        refine h.insert ?_ _ h.unqueued
        -- the object is there, so it is another that is brought in
        rintro rfl
        obtain ⟨o, ho, _⟩ := h.object
        exact habsent (Table.contains_iff.2 ⟨o, ho⟩)
    case h_2 => exact h
  | delete id' =>
    have hne : id ≠ id' := Ne.symm hspares
    refine h.of_eq ?_ ?_
    · exact (Table.get?_erase_eq s.objects id' id).trans (if_neg hne)
    · change Table.contains (KeySet.add s.deletions id') id = _
      rw [KeySet.contains_add, decide_eq_false hne, Bool.false_or]
  | work id' r =>
    by_cases hid : id' = id
    · subst hid
      exact h.reads hkeyed (worksOn_onObject fun o =>
        .single (Request.Reads.read c.registry (hspares rfl) store))
    · exact h.other hkeyed hid (worksOn_onObject fun o => .single (r.change c.registry store))
  | invoke id' method arg =>
    by_cases hid : id' = id
    · subst hid
      exact h.reads hkeyed (worksOn_invokeLocal arg fun op e o hop =>
        (hspares rfl op hop).reads c.registry e ⟨o, store, false⟩)
    · exact h.other hkeyed hid (worksOn_invokeLocal arg fun op e o _ =>
        op.changes c.registry e ⟨o, store, false⟩)
  | commit => cases hspares

theorem Awaits.run {t : Session × σ} (h : t.1.Awaits id i x) (hkeyed : t.1.Keyed)
    {steps : List Step} (hspares : ∀ step ∈ steps, step.Spares c id) :
    (run c localOnly steps t).1.Awaits id i x := by
  induction steps generalizing t with
  | nil => exact h
  | cons step steps ih =>
    obtain ⟨hstep, hsteps⟩ := List.forall_mem_cons.1 hspares
    exact ih (h.perform hkeyed t.2 hstep)
      ((transition_perform c localOnly hkeyed t.2 step).keyed hkeyed) hsteps

/-- A field that was set awaits the commit. -/
theorem awaits_of_set (hkeyed : s.Keyed) (store : σ) {o o' : Resident} {name : String} {v : Value}
    {f : Field} (ho : s.object? id = some o) (hf : o.field name = .ok f)
    (hset : o.set name v = .ok (x, o')) (hqueued : s.deletions.contains id = false) :
    (perform c localOnly (.work id (.set name v)) (s, store)).1.Awaits id f.index x := by
  have hstate : o' = { o with state := o.state.stage f.index x } := by
    obtain ⟨g, hg, hset⟩ := bind_eq_ok.1 hset
    obtain ⟨y, _, hset⟩ := bind_eq_ok.1 hset
    cases hset
    cases hf.symm.trans hg
    rfl
  have hrun : ((Request.set name v).run c.registry (o, store)).2.1 = o' := by
    rw [Request.run, Resident.change, Run.onFirst, Run.update]
    dsimp only
    rw [hset]
  unfold Session.perform onObject
  dsimp only
  rw [ho]
  dsimp only
  rw [hrun]
  refine ⟨⟨o', ?_, ?_, ?_⟩, hqueued⟩
  · rw [object?_putBack, hstate, if_pos (hkeyed id o ho).symm]
  · rw [hstate]
    change Table.contains (o.state.dirty.add f.index) f.index = true
    rw [KeySet.contains_add, decide_eq_true rfl, Bool.true_or]
  · rw [hstate]
    exact (Table.get?_insert _ _ _ _).trans (if_pos rfl)

end

/-! ## The slot behind a commit -/

theorem commit_memory (hkeyed : s.Keyed) (m : Memory) :
    ∃ s', commit (s, m) = (.ok (s.reportOf m), (s', Write.afterAll s.writes m)) ∧
      Behind s m s' := by
  refine commit_eq_of_start hkeyed trivial fun id hid => ?_
  rw [Memory.perform_eq, Memory.perform_eq]

/-- A commit without failures writes what awaits it. -/
theorem exists_slot_of_commit (hkeyed : s.Keyed) {m m' : Memory} {report : CommitReport}
    {i : UInt32} {x : Value} {cls : Class} (hclass : s.Classed r)
    (hcls : r.find id.classId = .ok cls) (h : s.Awaits id i x)
    (hcommit : commit (s, m) = (.ok report, (s', m'))) (hreport : report.failures = []) :
    ∃ f payload, cls.fieldAt? i = some f ∧ f.shape.encode f.name x = .ok payload ∧
      (m'.slots id).get? i = some payload := by
  obtain ⟨o, ho, hdirty, hcached⟩ := h.object
  obtain rfl : cls = o.schema := Except.ok.inj (hcls.symm.trans (hclass id o ho))
  obtain ⟨_, heq, _⟩ := commit_memory hkeyed m
  rw [heq] at hcommit
  cases hcommit
  have hisDirty : o.isDirty = true := by
    rw [Resident.isDirty, FieldState.isDirty, Bool.not_eq_true', ← Bool.not_eq_true]
    intro hempty
    obtain ⟨u, hu⟩ := Table.contains_iff.1 hdirty
    have hnone := Table.isEmpty_iff.1 hempty i
    rw [hu] at hnone
    cases hnone
  have hflushes : o.flushes m = true := by
    have hcalm : IndependentStore.calm m := trivial
    have hfailed := map_fst_failures (s := s) hcalm
    rw [hreport, List.map_nil] at hfailed
    have hnone := List.map_eq_nil_iff.1 (List.append_eq_nil_iff.1 hfailed.symm).1
    have ho' := List.filter_eq_nil_iff.1 hnone (id, o) (mem_entries.2 ho)
    rw [hisDirty, Bool.true_and, Bool.not_eq_true', Bool.not_eq_false] at ho'
    exact ho'
  obtain ⟨b, hb, _, hslots⟩ := slots_commit_of_flushes hkeyed trivial h.unqueued ho hflushes
  obtain ⟨f, payload, hf, hencode, hpayload⟩ :=
    Resident.exists_payload_of_batch hb hdirty hcached
  refine ⟨f, payload, hf, hencode, ?_⟩
  change (LawfulStore.slots (Write.afterAll s.writes m) id).get? i = some payload
  rw [hslots, Table.get?_merge, hpayload, Option.some_or]

/-! ## Reading back -/

/-- What an object that was just loaded answers for a field. -/
theorem get_fresh {σ : Type} [Store σ] {cls : Class} {name : String} {f : Field}
    (hf : cls.field? name = some f) {store store' : σ} {slot : Option ByteArray}
    (hget : Store.get id f.index store = (.ok slot, store')) (partition : UInt32) :
    (onObject id (Resident.get name) ({ empty partition with
      objects := (empty partition).objects.insert id (.loaded id cls) }, store)).1 =
        .ofExcept ((Proxy.slotValue f slot).mapError fun e => .state (.codec e)) := by
  have hobject : Session.object? { empty partition with
      objects := (empty partition).objects.insert id (.loaded id cls) } id =
        some (.loaded id cls) :=
    (Table.get?_insert _ _ _ _).trans (if_pos rfl)
  have hfield : (Resident.loaded id cls).field name = .ok f := by
    have hschema : (Resident.loaded id cls).schema.field? name = some f := hf
    unfold Resident.field
    rw [hschema]
  have hnone : (Resident.loaded id cls).state.cache.get? f.index = none := rfl
  have hidentity : (Resident.loaded id cls).identity = id := rfl
  unfold onObject
  dsimp only
  rw [hobject]
  unfold Resident.get
  dsimp only
  rw [hfield]
  unfold Resident.getField
  dsimp only
  rw [hnone, hidentity, hget]
  dsimp only
  cases Proxy.slotValue f slot <;> rfl

section

variable {c : Catalog} {localOnly : Bool} {partition : UInt32} {store m : Memory}
  {before between : List Step} {o o' : Resident} {name : String} {f : Field} {v x : Value}
  {m' later : Memory} {report : CommitReport}

/-- What was set, and spared until a commit without failures, is what a slot is decoded from by
whoever loads the object while nobody has written it since. -/
theorem get_behind_commit (hrun : run c localOnly before (empty partition, store) = (s, m))
    (ho : s.object? id = some o) (hqueued : s.deletions.contains id = false)
    (hf : o.field name = .ok f) (hset : o.set name v = .ok (x, o'))
    (hspares : ∀ step ∈ between, step.Spares c id)
    (hcommit : commit (run c localOnly (.work id (.set name v) :: between) (s, m)) =
      (.ok report, (s', m')))
    (hreport : report.failures = []) (hlater : later.slots id = m'.slots id)
    (partition' : UInt32) (hid : id.validate = .ok ()) :
    ∃ s'' payload, load c.registry (empty partition') id.classId id = .ok s'' ∧
      f.shape.encode f.name x = .ok payload ∧
      (onObject id (Resident.get name) (s'', later)).1 =
        .ofExcept ((f.shape.decode f.name payload).mapError fun e => .state (.codec e)) := by
  have hstart := classed_run c localOnly before (t := (empty partition, store))
    (keyed_empty partition) (classed_empty c.registry partition)
  rw [hrun] at hstart
  obtain ⟨hkeyed, hclassed⟩ := hstart
  have hcls := hclassed id o ho
  have hfield : o.schema.field? name = some f := by
    unfold Resident.field at hf
    split at hf
    case h_1 g hg =>
      cases hf
      exact hg
    case h_2 => cases hf
  obtain ⟨hkeyed', hclassed'⟩ := classed_run c localOnly (t := (s, m))
    (.work id (.set name v) :: between) hkeyed hclassed
  have hstep := transition_perform c localOnly hkeyed m (.work id (.set name v))
  have hawaits : (run c localOnly (.work id (.set name v) :: between) (s, m)).1.Awaits id
      f.index x := (awaits_of_set hkeyed m ho hf hset hqueued).run (hstep.keyed hkeyed) hspares
  obtain ⟨g, payload, hg, hencode, hslot⟩ :=
    exists_slot_of_commit hkeyed' hclassed' hcls hawaits hcommit hreport
  obtain ⟨hmem, hindex⟩ := Class.fieldAt?_eq_some_iff.1 hg
  obtain rfl : g = f := Class.eq_of_index_eq hmem (Class.mem_of_field? hfield) hindex
  refine ⟨_, payload, load_absent hid hcls rfl, hencode, ?_⟩
  have hget : Store.get id g.index later =
      (.ok (some payload), ({ later with reads := later.reads + 1 } : Memory)) := by
    rw [← hslot, ← hlater]
    rfl
  exact get_fresh hfield hget partition'

/-- A value that was set, and spared until a commit without failures, is read by whoever loads the
object while nobody has written it since. -/
theorem committed_reads_back (hrun : run c localOnly before (empty partition, store) = (s, m))
    (ho : s.object? id = some o) (hqueued : s.deletions.contains id = false)
    (hf : o.field name = .ok f) (hset : o.set name v = .ok (x, o'))
    (hspares : ∀ step ∈ between, step.Spares c id)
    (hcommit : commit (run c localOnly (.work id (.set name v) :: between) (s, m)) =
      (.ok report, (s', m')))
    (hreport : report.failures = []) (hlater : later.slots id = m'.slots id)
    (partition' : UInt32) (hid : id.validate = .ok ()) (hproper : f.shape.Proper)
    (hportable : f.shape.Portable 0 x) :
    ∃ s'' y, load c.registry (empty partition') id.classId id = .ok s'' ∧
      (onObject id (Resident.get name) (s'', later)).1 = .ok y ∧ y.same x = true := by
  obtain ⟨s'', payload, hload, hencode, hget⟩ :=
    get_behind_commit hrun ho hqueued hf hset hspares hcommit hreport hlater partition' hid
  have hcanonical : f.shape.Canonical x := by
    obtain ⟨g, hg, hset⟩ := bind_eq_ok.1 hset
    obtain ⟨y, hy, hset⟩ := bind_eq_ok.1 hset
    cases hset
    cases hf.symm.trans hg
    exact Shape.canonical_of_coerce hproper (mapError_eq_ok.1 hy)
  obtain ⟨_, hdecode⟩ := Shape.decode_of_encode hcanonical hportable hencode
  obtain ⟨y, hy, hsame⟩ := hdecode f.name
  refine ⟨s'', y, hload, ?_, hsame⟩
  rw [hget, hy]
  rfl

end

/-- The service of events, which have a time. -/
def eventService : Service :=
  ⟨⟨"Event", [.of "at" 0 .instant (some (.instant default))], [], []⟩, by decide⟩

def eventCatalog : Catalog := ⟨Table.empty.insert "Event" eventService⟩

def eventId (n : UInt64) : Identity := ⟨"Event", 0, n⟩

/-- A session that has made an event. -/
def withEvent : Session × Memory :=
  run eventCatalog false [.create 0 "Event" (some (eventId 1))] (empty 0, Memory.empty)

/-- The event is looked at, another one is made, and a third one is deleted. -/
def lookAround : List Step :=
  [.work (eventId 1) (.get "at"), .create 0 "Event" (some (eventId 2)), .delete (eventId 3)]

theorem spares_lookAround :
    ∀ step ∈ lookAround, Step.Spares eventCatalog (eventId 1) step := by
  intro step hstep
  simp only [lookAround, List.mem_cons, List.not_mem_nil, or_false] at hstep
  rcases hstep with rfl | rfl | rfl
  · exact fun _ => trivial
  · exact fun h => absurd h (by decide)
  · exact fun h => absurd h (by decide)

/-- The time of the event is set before that. -/
def rescheduled (t : Instant) : Session × Memory :=
  run eventCatalog false (.work (eventId 1) (.set "at" (.instant t)) :: lookAround) withEvent

theorem exists_withEvent :
    ∃ s m, withEvent = (s, m) ∧
      s.object? (eventId 1) = some (.created (eventId 1) eventService.schema) ∧
      s.deletions.contains (eventId 1) = false := ⟨_, _, rfl, rfl, rfl⟩

theorem exists_commit {t : Instant}
    (h : (commit (rescheduled t)).1 matches .ok ⟨1, 1, 1, []⟩) :
    ∃ s m, commit (rescheduled t) = (.ok ⟨1, 1, 1, []⟩, (s, m)) := by
  rcases hcommit : commit (rescheduled t) with ⟨out, s, m⟩
  rw [hcommit] at h
  split at h
  case h_1 hout =>
    cases hout
    exact ⟨s, m, rfl⟩
  case h_2 => cases h

/-- The last day of February in 2024, at noon. -/
def leapDay : Instant := { (default : Instant) with seconds := 1709208000 }

theorem committed_reads_back_event :
    ∃ s m o o' s' m', withEvent = (s, m) ∧ s.object? (eventId 1) = some o ∧
      o.set "at" (.instant leapDay) = .ok (.instant leapDay, o') ∧
      commit (rescheduled leapDay) = (.ok ⟨1, 1, 1, []⟩, (s', m')) ∧
      ∃ s'' y, load eventCatalog.registry (empty 1) "Event" (eventId 1) = .ok s'' ∧
        (onObject (eventId 1) (Resident.get "at") (s'', m')).1 = .ok y ∧
        y.same (.instant leapDay) = true := by
  obtain ⟨s, m, hrun, ho, hqueued⟩ := exists_withEvent
  obtain ⟨s', m', hcommit⟩ := exists_commit (t := leapDay) (by decide +kernel)
  refine ⟨s, m, _, _, s', m', hrun, ho, rfl, hcommit, ?_⟩
  rw [rescheduled, hrun] at hcommit
  have hcommon : leapDay.IsCommon := by decide
  exact committed_reads_back hrun ho hqueued rfl rfl spares_lookAround hcommit rfl rfl 1 rfl
    (fun _ _ hp => nomatch hp) (Shape.portable_instant (by decide) hcommon)

/-- The beginning of the year 10000. -/
def year10000 : Instant := { (default : Instant) with seconds := 253402300800 }

/-- The time is accepted and committed without a failure, but nobody can read it again. -/
theorem committed_unreadable :
    ∃ s m o o' s' m', withEvent = (s, m) ∧ s.object? (eventId 1) = some o ∧
      o.set "at" (.instant year10000) = .ok (.instant year10000, o') ∧
      commit (rescheduled year10000) = (.ok ⟨1, 1, 1, []⟩, (s', m')) ∧
      ∃ s'' e, load eventCatalog.registry (empty 1) "Event" (eventId 1) = .ok s'' ∧
        (onObject (eventId 1) (Resident.get "at") (s'', m')).1 =
          .fail (.state (.codec (.mismatch e))) := by
  obtain ⟨s, m, hrun, ho, hqueued⟩ := exists_withEvent
  obtain ⟨s', m', hcommit⟩ := exists_commit (t := year10000) (by decide +kernel)
  refine ⟨s, m, _, _, s', m', hrun, ho, rfl, hcommit, ?_⟩
  rw [rescheduled, hrun] at hcommit
  obtain ⟨s'', payload, hload, hencode, hget⟩ := get_behind_commit hrun ho hqueued rfl rfl
    spares_lookAround hcommit rfl rfl 1 rfl
  have hdepth : ∀ j, Shape.Somewhere Shape.write .instant (.instant year10000) j →
      j.depth ≤ Json.Raw.maxDepth := by
    rintro j ⟨p, hj⟩
    cases hj
    exact Nat.zero_le _
  obtain ⟨j, ⟨p, hj⟩, _, hdecode⟩ := Shape.decode_eq_read hdepth hencode
  cases hj
  have htext : Instant.ofText? year10000.text = none := by decide +kernel
  have hread : ∃ e, Shape.instant.read "at" (.str year10000.text) = .error e := by
    change ∃ e, Shape.instantOfText "at" year10000.text = .error e
    unfold Shape.instantOfText
    rw [htext]
    exact ⟨_, rfl⟩
  obtain ⟨e, he⟩ := hread
  refine ⟨s'', e, hload, ?_⟩
  have hfield : Shape.decode "at" .instant payload = .error (.mismatch e) := by
    rw [hdecode, he]
    rfl
  rw [hget]
  exact congrArg (fun x => Outcome.ofExcept (Except.mapError _ x)) hfield

end Session
end ObjectSpace
