import ObjectSpace.Proofs.Object.Change
import ObjectSpace.Proofs.Object.Flush
import ObjectSpace.Proofs.Store.Steady

/-!
# Objects that answer alike

What one object has in memory another may still have to read from its slot. As long as both have the
same to write and come to the same value for every field, no request about their fields can tell
them from each other.
-/

namespace ObjectSpace

open Success
open Verdict (asked)

namespace Resident

section

variable {σ : Type} [Store σ] [LawfulStore σ]

/-- The value that the slot of a field stands for, if the store lets it be read. -/
def stored (f : Field) (id : Identity) (s : σ) : Outcome StateError Value :=
  match (asked id s).get f.index with
  | .ok _ =>
    .ofExcept ((Proxy.slotValue f ((LawfulStore.slots s id).get? f.index)).mapError .codec)
  | .fail e => .fail (.store e)
  | .crash => .crash

theorem stored_congr {f : Field} {id : Identity} {s s' : σ} (hasked : asked id s' = asked id s)
    (hslot : (LawfulStore.slots s' id).get? f.index = (LawfulStore.slots s id).get? f.index) :
    stored f id s' = stored f id s := by
  unfold stored
  rw [hasked, hslot]

/-- The value of a field, as the object in front of the store answers it. -/
def shown (f : Field) (t : Resident × σ) : Outcome StateError Value := (getField f t).1

theorem shown_eq (f : Field) (o : Resident) (s : σ) :
    shown f (o, s) = match o.state.cache.get? f.index with
      | some v => .ok v
      | none => stored f o.identity s := by
  unfold shown getField stored asked
  dsimp only
  cases o.state.cache.get? f.index with
  | some v => rfl
  | none =>
    dsimp only
    rcases hr : Store.get o.identity f.index s with ⟨out, s'⟩
    cases out with
    | ok slot =>
      obtain rfl := LawfulStore.get_answer hr
      dsimp only [Verdict.ofOutcome]
      cases Proxy.slotValue f ((LawfulStore.slots s o.identity).get? f.index) <;> rfl
    | fail e => rfl
    | crash => rfl

end

variable {σ : Type} [Store σ] [SteadyStore σ]

/-- Two objects, each in front of its own store. Both stores say the same. -/
structure Alike (verdict : Verdict) (t u : Resident × σ) : Prop where
  identity : u.1.identity = t.1.identity
  schema : u.1.schema = t.1.schema
  dirty : u.1.state.dirty = t.1.state.dirty
  staged : ∀ i, t.1.state.dirty.contains i = true →
    ∃ v, t.1.state.cache.get? i = some v ∧ u.1.state.cache.get? i = some v
  answers : ∀ f ∈ t.1.schema.fields, shown f u = shown f t
  slots : LawfulStore.slots u.2 t.1.identity = LawfulStore.slots t.2 t.1.identity
  stores : asked t.1.identity t.2 = verdict ∧ asked t.1.identity u.2 = verdict
  calm : IndependentStore.calm t.2 ∧ IndependentStore.calm u.2

/-- Nobody sees that something was read. -/
structure Unseen (t t' : Resident × σ) : Prop where
  identity : t'.1.identity = t.1.identity
  schema : t'.1.schema = t.1.schema
  dirty : t'.1.state.dirty = t.1.state.dirty
  cached : ∀ i v, t.1.state.cache.get? i = some v → t'.1.state.cache.get? i = some v
  answers : ∀ f ∈ t.1.schema.fields, shown f t' = shown f t
  slots : LawfulStore.slots t'.2 t.1.identity = LawfulStore.slots t.2 t.1.identity
  verdict : asked t.1.identity t'.2 = asked t.1.identity t.2
  calm : IndependentStore.calm t'.2

variable {verdict : Verdict} {t t' u u' : Resident × σ}

theorem Alike.unseen (h : Alike verdict t u) (ht : Unseen t t') (hu : Unseen u u') :
    Alike verdict t' u' where
  identity := by rw [hu.identity, h.identity, ht.identity]
  schema := by rw [hu.schema, h.schema, ht.schema]
  dirty := by rw [hu.dirty, h.dirty, ht.dirty]
  staged i hi := by
    rw [ht.dirty] at hi
    obtain ⟨v, htv, huv⟩ := h.staged i hi
    exact ⟨v, ht.cached i v htv, hu.cached i v huv⟩
  answers f hf := by
    rw [ht.schema] at hf
    rw [hu.answers f (h.schema ▸ hf), h.answers f hf, ht.answers f hf]
  slots := by
    have hslots := hu.slots
    rw [h.identity, h.slots] at hslots
    rw [ht.identity, hslots, ht.slots]
  stores := by
    have hverdict := hu.verdict
    rw [h.identity] at hverdict
    rw [ht.identity]
    exact ⟨ht.verdict.trans h.stores.1, hverdict.trans h.stores.2⟩
  calm := ⟨ht.calm, hu.calm⟩

theorem Unseen.trans {t'' : Resident × σ} (h : Unseen t t') (h' : Unseen t' t'') :
    Unseen t t'' where
  identity := h'.identity.trans h.identity
  schema := h'.schema.trans h.schema
  dirty := h'.dirty.trans h.dirty
  cached i v hv := h'.cached i v (h.cached i v hv)
  answers f hf := (h'.answers f (h.schema ▸ hf)).trans (h.answers f hf)
  slots := by
    have hslots := h'.slots
    rw [h.identity] at hslots
    exact hslots.trans h.slots
  verdict := by
    have hverdict := h'.verdict
    rw [h.identity] at hverdict
    exact hverdict.trans h.verdict
  calm := h'.calm

/-- The computation answers the same for objects that are alike, and leaves them alike. -/
def Blind {α : Type} (r : Run (Resident × σ) StateError α) : Prop :=
  ∀ ⦃verdict t u⦄, Alike verdict t u → (r u).1 = (r t).1 ∧ Alike verdict (r t).2 (r u).2

/-! ## Reading -/

theorem Unseen.store {o : Resident} {s s' : σ}
    (hslots : LawfulStore.slots s' o.identity = LawfulStore.slots s o.identity)
    (hasked : asked o.identity s' = asked o.identity s) (hcalm : IndependentStore.calm s') :
    Unseen (o, s) (o, s') where
  identity := rfl
  schema := rfl
  dirty := rfl
  cached _ _ h := h
  answers f _ := by
    have hstored := stored_congr (f := f) hasked (congrArg (Table.get? · f.index) hslots)
    rw [shown_eq, shown_eq, hstored]
  slots := hslots
  verdict := hasked
  calm := hcalm

/-- What the object would answer anyway can be kept in memory. -/
theorem Unseen.load {f : Field} {o : Resident} {s : σ} {v : Value} (hf : f ∈ o.schema.fields)
    (hcache : o.state.cache.get? f.index = none) (hv : shown f (o, s) = .ok v)
    (hcalm : IndependentStore.calm s) :
    Unseen (o, s) ({ o with state := o.state.load f.index v }, s) where
  identity := rfl
  schema := rfl
  dirty := rfl
  cached i w hw := by
    have hne : i ≠ f.index := by
      rintro rfl
      rw [hcache] at hw
      cases hw
    change (o.state.cache.insert f.index v).get? i = some w
    rw [Table.get?_insert, if_neg hne, hw]
  answers g hg := by
    have hcached : (o.state.load f.index v).cache.get? g.index =
        if g.index = f.index then some v else o.state.cache.get? g.index :=
      Table.get?_insert _ _ _ _
    by_cases hi : g.index = f.index
    · obtain rfl := Class.eq_of_index_eq hg hf hi
      rw [hv, shown_eq]
      dsimp only
      rw [hcached, if_pos rfl]
    · rw [shown_eq, shown_eq]
      dsimp only
      rw [hcached, if_neg hi]
  slots := rfl
  verdict := rfl
  calm := hcalm

theorem unseen_getField {f : Field} {o : Resident} {s : σ} (hf : f ∈ o.schema.fields)
    (hcalm : IndependentStore.calm s) : Unseen (o, s) (getField f (o, s)).2 := by
  have hquiet : Unseen (o, s) (o, (Store.get o.identity f.index s).2) :=
    .store (congrFun (LawfulStore.get_slots rfl) o.identity) (SteadyStore.asked_get hcalm)
      (SteadyStore.calm_get hcalm)
  have hshown : (getField f (o, s)).1 = shown f (o, s) := rfl
  unfold getField at hshown ⊢
  dsimp only at hshown ⊢
  cases hcache : o.state.cache.get? f.index with
  | some v => exact .store rfl rfl hcalm
  | none =>
    rw [hcache] at hshown
    dsimp only at hshown ⊢
    rcases hr : Store.get o.identity f.index s with ⟨out, s'⟩
    rw [hr] at hquiet hshown
    cases out with
    | ok slot =>
      dsimp only at hquiet hshown ⊢
      cases hv : Proxy.slotValue f slot with
      | error e => exact hquiet
      | ok v =>
        rw [hv] at hshown
        have hanswer : shown f (o, s') = .ok v := (hquiet.answers f hf).trans hshown.symm
        exact hquiet.trans (.load hf hcache hanswer hquiet.calm)
    | fail e => exact hquiet
    | crash => exact hquiet

section

variable (h : Alike verdict t u)

include h

theorem Alike.field (name : String) : u.1.field name = t.1.field name := by
  unfold Resident.field
  rw [h.schema, h.identity]

theorem Alike.accessed (accessor : String) (access : Access) :
    u.1.accessed accessor access = t.1.accessed accessor access := by
  unfold Resident.accessed
  rw [h.schema, h.identity]

theorem Alike.referencedClass (name : String) :
    u.1.referencedClass name = t.1.referencedClass name := by
  unfold Resident.referencedClass
  rw [h.field]

theorem Alike.isDirty : u.1.isDirty = t.1.isDirty := by
  unfold Resident.isDirty FieldState.isDirty
  rw [h.dirty]

theorem Alike.dirtyFields : u.1.dirtyFields = t.1.dirtyFields := by
  unfold Resident.dirtyFields
  rw [h.schema, h.dirty]

theorem Alike.asReference (registry : Registry) :
    u.1.asReference registry = t.1.asReference registry := by
  unfold Resident.asReference
  rw [h.identity]

end

theorem blind_get (name : String) : Blind (σ := σ) (get name) := by
  intro verdict t u h
  obtain ⟨o, s⟩ := t
  obtain ⟨o', s'⟩ := u
  have hfield := h.field name
  unfold get
  dsimp only at hfield ⊢
  rw [hfield]
  cases hf : o.field name with
  | error e => exact ⟨rfl, h⟩
  | ok f =>
    have hmem := mem_fields_of_field hf
    have hmem' : f ∈ o'.schema.fields := h.schema.symm ▸ hmem
    exact ⟨h.answers f hmem, h.unseen (unseen_getField hmem h.calm.1)
      (unseen_getField hmem' h.calm.2)⟩

theorem blind_look {α : Type} {f : Resident → Except StateError α}
    (hf : ∀ ⦃verdict : Verdict⦄ ⦃t u : Resident × σ⦄, Alike verdict t u → f u.1 = f t.1) :
    Blind (σ := σ) (look f) :=
  fun _ _ _ h => ⟨congrArg Outcome.ofExcept (hf h), h⟩

/-- What is looked up in the object before it is asked is the same in objects that are alike. -/
theorem blind_after {α β : Type} (look : Resident → Except StateError α)
    {r : α → Run (Resident × σ) StateError β}
    (hlook : ∀ ⦃verdict : Verdict⦄ ⦃t u : Resident × σ⦄, Alike verdict t u → look u.1 = look t.1)
    (hr : ∀ a, Blind (r a)) :
    Blind (Run.getState >>= fun t => Run.ofExcept (look t.1) >>= r) := by
  intro verdict t u h
  have happly := Run.look_bind_apply (fun x : Resident × σ => look x.1) r
  rw [happly, happly, hlook h]
  cases look t.1 with
  | error e => exact ⟨rfl, h⟩
  | ok a => exact hr a h

theorem blind_bind_ofExcept {α β : Type} {r : Run (Resident × σ) StateError α} (hr : Blind r)
    (f : α → Except StateError β) : Blind (r >>= fun a => Run.ofExcept (f a)) := by
  intro verdict t u h
  have hsame := hr h
  rw [Run.bind_apply, Run.bind_apply]
  rcases ht : r t with ⟨out, t'⟩
  rcases hu : r u with ⟨out', u'⟩
  rw [ht, hu] at hsame
  obtain ⟨rfl, halike⟩ := hsame
  cases out' <;> exact ⟨rfl, halike⟩

theorem blind_read (accessor : String) : Blind (σ := σ) (read accessor) :=
  blind_after (fun o => o.accessed accessor .read) (fun _ _ _ h => h.accessed accessor .read)
    blind_get

theorem blind_reference (registry : Registry) (name : String) :
    Blind (σ := σ) (reference registry name) :=
  blind_after (fun o => o.referencedClass name) (fun _ _ _ h => h.referencedClass name)
    fun classId => blind_bind_ofExcept (blind_get name) (proxyOf registry classId)

/-! ## Staging -/

theorem Alike.stage (h : Alike verdict t u) (i : UInt32) (v : Value) :
    Alike verdict ({ t.1 with state := t.1.state.stage i v }, t.2)
      ({ u.1 with state := u.1.state.stage i v }, u.2) where
  identity := h.identity
  schema := h.schema
  dirty := congrArg (KeySet.add · i) h.dirty
  staged j hj := by
    change (t.1.state.dirty.add i).contains j = true at hj
    change ∃ w, (t.1.state.cache.insert i v).get? j = some w ∧
      (u.1.state.cache.insert i v).get? j = some w
    rw [Table.get?_insert, Table.get?_insert]
    by_cases hji : j = i
    · exact ⟨v, if_pos hji, if_pos hji⟩
    · rw [if_neg hji, if_neg hji]
      rw [KeySet.contains_add] at hj
      exact h.staged j (by simpa [hji] using hj)
  answers f hf := by
    have hcached : ∀ o : Resident, (o.state.stage i v).cache.get? f.index =
        if f.index = i then some v else o.state.cache.get? f.index :=
      fun o => Table.get?_insert _ _ _ _
    have hanswer := h.answers f hf
    obtain ⟨o, s⟩ := t
    obtain ⟨o', s'⟩ := u
    rw [shown_eq, shown_eq] at hanswer ⊢
    dsimp only at hanswer ⊢
    rw [hcached, hcached]
    by_cases hi : f.index = i
    · rw [if_pos hi, if_pos hi]
    · rw [if_neg hi, if_neg hi]
      exact hanswer
  slots := h.slots
  stores := h.stores
  calm := h.calm

/-- Two changes that fail alike, or succeed alike and leave objects alike. -/
inductive Matching {α : Type} (verdict : Verdict) (s s' : σ) :
    Except StateError (α × Resident) → Except StateError (α × Resident) → Prop
  | error (e : StateError) : Matching verdict s s' (.error e) (.error e)
  | ok {o o' : Resident} (a : α) (h : Alike verdict (o, s) (o', s')) :
    Matching verdict s s' (.ok (a, o)) (.ok (a, o'))

/-- The object goes on with another result. -/
theorem Matching.answering {α β : Type} {s s' : σ} {x y : Except StateError (α × Resident)}
    (h : Matching verdict s s' x y) (b : β) :
    Matching verdict s s' (x >>= fun p => pure (b, p.2)) (y >>= fun p => pure (b, p.2)) := by
  cases h with
  | error e => exact .error e
  | ok a h => exact .ok b h

theorem blind_change {α : Type} {f : Resident → Except StateError (α × Resident)}
    (hf : ∀ ⦃verdict : Verdict⦄ ⦃t u : Resident × σ⦄, Alike verdict t u →
      Matching verdict t.2 u.2 (f t.1) (f u.1)) :
    Blind (change (σ := σ) f) := by
  intro verdict t u h
  have hmatching := hf h
  unfold change Run.onFirst Run.update
  dsimp only
  revert hmatching
  generalize f t.1 = x
  generalize f u.1 = y
  intro hmatching
  cases hmatching with
  | error e => exact ⟨rfl, h⟩
  | ok a h => exact ⟨rfl, h⟩

theorem Alike.set (h : Alike verdict t u) (name : String) (v : Value) :
    Matching verdict t.2 u.2 (t.1.set name v) (u.1.set name v) := by
  unfold Resident.set
  rw [h.field]
  cases t.1.field name with
  | error e => exact .error e
  | ok f =>
    dsimp only [bind, Except.bind]
    cases (f.shape.coerce f.name v).mapError StateError.mismatch with
    | error e => exact .error e
    | ok c => exact .ok c (h.stage f.index c)

theorem Alike.write (h : Alike verdict t u) (accessor : String) (v : Value) :
    Matching verdict t.2 u.2 (t.1.write accessor v) (u.1.write accessor v) := by
  unfold Resident.write
  rw [h.accessed]
  cases t.1.accessed accessor .write with
  | error e => exact .error e
  | ok name => exact h.set name v

theorem Alike.setReference (h : Alike verdict t u) (name : String) (target : Target) :
    Matching verdict t.2 u.2 (t.1.setReference name target) (u.1.setReference name target) := by
  unfold Resident.setReference
  rw [h.referencedClass]
  cases t.1.referencedClass name with
  | error e => exact .error e
  | ok classId =>
    dsimp only [bind, Except.bind]
    cases (target.normalizeFor classId).mapError StateError.mismatch with
    | error e => exact .error e
    | ok id => exact (h.set name (.ref id)).answering id

theorem Alike.clearReference (h : Alike verdict t u) (name : String) :
    Matching verdict t.2 u.2 ((t.1.clearReference name).map fun o => ((), o))
      ((u.1.clearReference name).map fun o => ((), o)) := by
  have hmap : ∀ o : Resident, (o.clearReference name).map (fun o => ((), o)) =
      o.referencedClass name >>= fun _ => o.set name .null >>= fun p => pure ((), p.2) := by
    intro o
    unfold Resident.clearReference
    cases o.referencedClass name with
    | error e => rfl
    | ok classId => cases o.set name .null <;> rfl
  rw [hmap, hmap, h.referencedClass]
  cases t.1.referencedClass name with
  | error e => exact .error e
  | ok classId => exact (h.set name .null).answering ()

/-! ## Forgetting -/

/-- The stores of objects that are alike hold the same for them. -/
theorem Alike.stored (h : Alike verdict t u) (f : Field) :
    stored f u.1.identity u.2 = stored f t.1.identity t.2 := by
  rw [h.identity]
  exact stored_congr (h.stores.2.trans h.stores.1.symm) (congrArg (Table.get? · f.index) h.slots)

/-- What both forget, both have to read again. -/
theorem Alike.evict (h : Alike verdict t u) (i : UInt32) :
    Alike verdict ({ t.1 with state := t.1.state.evict i }, t.2)
      ({ u.1 with state := u.1.state.evict i }, u.2) where
  identity := h.identity
  schema := h.schema
  dirty := congrArg (Table.erase · i) h.dirty
  staged j hj := by
    change Table.contains (Table.erase t.1.state.dirty i) j = true at hj
    change ∃ w, (t.1.state.cache.erase i).get? j = some w ∧
      (u.1.state.cache.erase i).get? j = some w
    rw [KeySet.contains_erase, Bool.and_eq_true, Bool.not_eq_true', decide_eq_false_iff_not] at hj
    rw [Table.get?_erase_eq, Table.get?_erase_eq, if_neg hj.1, if_neg hj.1]
    exact h.staged j hj.2
  answers f hf := by
    have hcached : ∀ o : Resident, (o.state.evict i).cache.get? f.index =
        if f.index = i then none else o.state.cache.get? f.index :=
      fun o => Table.get?_erase_eq _ _ _
    have hanswer := h.answers f hf
    have hstored := h.stored f
    obtain ⟨o, s⟩ := t
    obtain ⟨o', s'⟩ := u
    rw [shown_eq, shown_eq] at hanswer ⊢
    dsimp only at hanswer hstored ⊢
    rw [hcached, hcached]
    by_cases hi : f.index = i
    · rw [if_pos hi, if_pos hi]
      exact hstored
    · rw [if_neg hi, if_neg hi]
      exact hanswer
  slots := h.slots
  stores := h.stores
  calm := h.calm

theorem Alike.invalidate (h : Alike verdict t u) (name : String) :
    Matching verdict t.2 u.2 ((t.1.invalidate name).map fun o => ((), o))
      ((u.1.invalidate name).map fun o => ((), o)) := by
  unfold Resident.invalidate
  rw [h.field]
  cases t.1.field name with
  | error e => exact .error e
  | ok f => exact .ok () (h.evict f.index)

/-! ## Flushing -/

theorem encodeDirty_congr {o o' : Resident} (hschema : o'.schema = o.schema) {is : List UInt32}
    (h : ∀ i ∈ is, o'.state.cache.get? i = o.state.cache.get? i) :
    o'.encodeDirty is = o.encodeDirty is := by
  induction is with
  | nil => rfl
  | cons i is ih =>
    obtain ⟨hi, his⟩ := List.forall_mem_cons.1 h
    rw [encodeDirty, encodeDirty, hschema, hi, ih his]

theorem Alike.batch (h : Alike verdict t u) : u.1.batch = t.1.batch := by
  unfold Resident.batch
  rw [h.dirty]
  refine encodeDirty_congr h.schema fun i hi => ?_
  obtain ⟨v, ht, hu⟩ := h.staged i (Table.mem_keys.1 hi)
  exact hu.trans ht.symm

/-- What a put of the batch does to the object, whatever else the object has in memory. -/
structure Settled (o : Resident) (s : σ) (b : Slots) (s' : σ) : Prop where
  dirty : (o.settle b).state.dirty = {}
  answers : ∀ f, shown f (o.settle b, s') = shown f (o, s)
  slots : LawfulStore.slots s' o.identity = (LawfulStore.slots s o.identity).merge b
  verdict : asked o.identity s' = asked o.identity s
  calm : IndependentStore.calm s'

theorem verdict_of_put {id : Identity} {s s' : σ} {b : Slots} {out : Outcome StoreError Unit}
    (hcalm : IndependentStore.calm s) (hput : Store.put id b s = (out, s')) :
    asked id s' = asked id s ∧ IndependentStore.calm s' := by
  have hs : s' = (Store.put id b s).2 := by rw [hput]
  rw [hs]
  exact ⟨SteadyStore.asked_put hcalm, IndependentStore.calm_after (w := .put id b) hcalm⟩

theorem settled_of_put {o : Resident} {s s' : σ} {b : Slots} (hcalm : IndependentStore.calm s)
    (hstaged : ∀ i, o.state.dirty.contains i = true → ∃ v, o.state.cache.get? i = some v)
    (hb : o.batch = .ok b) (hput : Store.put o.identity b s = (.ok (), s')) :
    Settled o s b s' := by
  obtain ⟨hverdict, hcalm'⟩ := verdict_of_put hcalm hput
  have hslots := LawfulStore.put_slots hput
  refine ⟨dirty_settle hb, fun f => ?_, hslots, hverdict, hcalm'⟩
  have hcache : (o.settle b).state.cache.get? f.index = o.state.cache.get? f.index := by
    rw [cache_settle]
  rw [shown_eq, shown_eq, hcache]
  cases hf : o.state.cache.get? f.index with
  | some v => rfl
  | none =>
    -- what is not in memory is not dirty, so its slot is not in the batch
    have hclean : b.get? f.index = none := by
      rw [Table.get?_eq_none_iff, contains_batch hb, Bool.eq_false_iff]
      intro hdirty
      obtain ⟨v, hv⟩ := hstaged f.index hdirty
      rw [hf] at hv
      cases hv
    refine stored_congr hverdict ?_
    change (LawfulStore.slots s' o.identity).get? f.index =
      (LawfulStore.slots s o.identity).get? f.index
    rw [hslots, Table.get?_merge, hclean]
    rfl

theorem Alike.settle {o o' : Resident} {s s' s₁ s₁' : σ} (h : Alike verdict (o, s) (o', s'))
    {b : Slots} (hb : o.batch = .ok b) (hput : Store.put o.identity b s = (.ok (), s₁))
    (hput' : Store.put o'.identity b s' = (.ok (), s₁')) :
    Alike verdict (o.settle b, s₁) (o'.settle b, s₁') := by
  have hleft : Settled o s b s₁ := settled_of_put h.calm.1
    (fun i hi => (h.staged i hi).imp fun _ hv => hv.1) hb hput
  have hdirty : o'.state.dirty = o.state.dirty := h.dirty
  have hright : Settled o' s' b s₁' := settled_of_put h.calm.2
    (fun i hi => (h.staged i (hdirty ▸ hi)).imp fun _ hv => hv.2) (h.batch.trans hb) hput'
  have hid : o'.identity = o.identity := h.identity
  have hslots := hright.slots
  have hverdict := hright.verdict
  rw [hid] at hslots hverdict
  constructor
  · exact hid
  · exact h.schema
  · exact hright.dirty.trans hleft.dirty.symm
  · intro i hi
    change (o.settle b).state.dirty.contains i = true at hi
    rw [hleft.dirty] at hi
    cases hi
  · intro f hf
    rw [hright.answers, hleft.answers]
    exact h.answers f hf
  · have hbefore : LawfulStore.slots s' o.identity = LawfulStore.slots s o.identity := h.slots
    exact (hslots.trans (by rw [hbefore])).trans hleft.slots.symm
  · exact ⟨hleft.verdict.trans h.stores.1, hverdict.trans h.stores.2⟩
  · exact ⟨hleft.calm, hright.calm⟩

theorem Unseen.refused {o : Resident} {s s' : σ} {b : Slots} {out : Outcome StoreError Unit}
    (hcalm : IndependentStore.calm s) (hput : Store.put o.identity b s = (out, s'))
    (hout : out ≠ .ok ()) : Unseen (o, s) (o, s') := by
  obtain ⟨hverdict, hcalm'⟩ := verdict_of_put hcalm hput
  exact .store (congrFun (LawfulStore.put_failed hput hout) o.identity) hverdict hcalm'

theorem blind_flush : Blind (σ := σ) flush := by
  rintro verdict ⟨o, s⟩ ⟨o', s'⟩ h
  have hdirty : o'.isDirty = o.isDirty := h.isDirty
  have hbatch : o'.batch = o.batch := h.batch
  cases hd : o.isDirty with
  | false =>
    rw [flush_of_clean hd, flush_of_clean (hdirty.trans hd)]
    exact ⟨rfl, h⟩
  | true =>
    cases hb : o.batch with
    | error e =>
      rw [flush_of_not_encoded hd hb, flush_of_not_encoded (hdirty.trans hd) (hbatch.trans hb)]
      exact ⟨rfl, h⟩
    | ok b =>
      have hid : o'.identity = o.identity := h.identity
      have hsame : (Store.put o'.identity b s').1 = (Store.put o.identity b s).1 := by
        rw [hid]
        exact congrFun (congrArg Verdict.put (h.stores.2.trans h.stores.1.symm)) b
      rw [flush_put hd hb, flush_put (hdirty.trans hd) (hbatch.trans hb)]
      rcases hput : Store.put o.identity b s with ⟨out, s₁⟩
      rcases hput' : Store.put o'.identity b s' with ⟨out', s₁'⟩
      rw [hput, hput'] at hsame
      obtain rfl : out' = out := hsame
      cases out' with
      | ok => exact ⟨rfl, h.settle hb hput hput'⟩
      | fail e =>
        exact ⟨rfl, h.unseen (.refused h.calm.1 hput (by simp))
          (.refused h.calm.2 hput' (by simp))⟩
      | crash =>
        exact ⟨rfl, h.unseen (.refused h.calm.1 hput (by simp))
          (.refused h.calm.2 hput' (by simp))⟩

end Resident

open Resident (Alike Blind)

variable {σ : Type} [Store σ] [SteadyStore σ]

/-- The request asks what the object has in memory just now, and not only what its fields hold. -/
def Request.Peeks : Request → Prop
  | phase _ | state => True
  | _ => False

/-- The body goes by what the fields of its object hold, wherever they are held. -/
def Operation.NeverPeeks (op : Operation) : Prop :=
  ∀ args callMeta, (op.body args callMeta).Only fun r => ¬r.Peeks

/-- No request about the fields can tell objects that are alike from each other. -/
theorem Request.blind (registry : Registry) {r : Request} (h : ¬r.Peeks) :
    Blind (σ := σ) (r.run registry) := by
  cases r with
  | get name => exact Resident.blind_get name
  | set name v => exact Resident.blind_change fun _ _ _ h => h.set name v
  | read accessor => exact Resident.blind_read accessor
  | write accessor v => exact Resident.blind_change fun _ _ _ h => h.write accessor v
  | setReference name t => exact Resident.blind_change fun _ _ _ h => h.setReference name t
  | reference name => exact Resident.blind_reference registry name
  | clearReference name => exact Resident.blind_change fun _ _ _ h => h.clearReference name
  | invalidate name => exact Resident.blind_change fun _ _ _ h => h.invalidate name
  | flush => exact Resident.blind_flush
  | isDirty => exact Resident.blind_look fun _ _ _ h => congrArg Except.ok h.isDirty
  | dirtyFields => exact Resident.blind_look fun _ _ _ h => congrArg Except.ok h.dirtyFields
  | asReference => exact Resident.blind_look fun _ _ _ h => h.asReference registry
  | phase name => exact absurd trivial h
  | state => exact absurd trivial h

/-- Two objects at work, held up for as long as each other. -/
structure Scene.Alike (verdict : Verdict) (x y : Scene σ) : Prop where
  objects : Resident.Alike verdict (x.object, x.store) (y.object, y.store)
  late : y.late = x.late

theorem Action.blind {α : Type} (registry : Registry) {a : Action α}
    (ha : a.Only fun r => ¬r.Peeks) {verdict : Verdict} {x y : Scene σ}
    (h : Scene.Alike verdict x y) :
    (a.run registry y).1 = (a.run registry x).1 ∧
      Scene.Alike verdict (a.run registry x).2 (a.run registry y).2 := by
  induction ha generalizing x y with
  | done => exact ⟨rfl, h⟩
  | fail => exact ⟨rfl, h⟩
  | crash => exact ⟨rfl, h⟩
  | pause _ ih => exact ih ⟨h.objects, rfl⟩
  | @perform r next hr _ ih =>
    obtain ⟨hout, halike⟩ := Request.blind registry hr h.objects
    have hafter : Scene.Alike verdict (Scene.onObject (r.run registry) x).2
      (Scene.onObject (r.run registry) y).2 := ⟨halike, h.late⟩
    have hsame : (Scene.onObject (r.run registry) y).1 =
      (Scene.onObject (r.run registry) x).1 := hout
    unfold Action.run
    rcases hx : Scene.onObject (r.run registry) x with ⟨out, x'⟩
    rcases hy : Scene.onObject (r.run registry) y with ⟨out', y'⟩
    rw [hx, hy] at hafter hsame
    obtain rfl : out' = out := hsame
    cases out' with
    | ok answer => exact ih (.ok answer) hafter
    | fail e => exact ih (.error e) hafter
    | crash => exact ⟨rfl, hafter⟩

theorem Operation.NeverPeeks.blind {op : Operation} (hop : op.NeverPeeks) (registry : Registry)
    (e : Envelope) {verdict : Verdict} {x y : Scene σ} (h : Scene.Alike verdict x y) :
    (op.tryInvoke registry e y).1 = (op.tryInvoke registry e x).1 ∧
      Scene.Alike verdict (op.tryInvoke registry e x).2 (op.tryInvoke registry e y).2 := by
  have hid : y.object.identity = x.object.identity := h.objects.identity
  rw [Operation.tryInvoke_apply, Operation.tryInvoke_apply, hid]
  cases op.decodeArguments e.payload with
  | error err => exact ⟨rfl, h⟩
  | ok args =>
    dsimp only
    obtain ⟨hout, halike⟩ :=
      Action.blind registry (hop args ⟨x.object.identity, e.method, e.options⟩) h
    rcases hx : (op.body args ⟨x.object.identity, e.method, e.options⟩).run registry x with
      ⟨out, x'⟩
    rcases hy : (op.body args ⟨x.object.identity, e.method, e.options⟩).run registry y with
      ⟨out', y'⟩
    rw [hx, hy] at hout halike
    obtain rfl : out' = out := hout
    cases out' <;> exact ⟨rfl, halike⟩

end ObjectSpace
