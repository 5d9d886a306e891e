import Mathlib.Logic.Relation
import ObjectSpace.Proofs.Class.Fields
import ObjectSpace.Proofs.Object.Batch
import ObjectSpace.Proofs.Run
import ObjectSpace.Service.Operation

/-!
# What work does to an object

Whatever a body asks of its object, the object loads one field, stages one, forgets one or settles
its batch, or else it stays as it is. It is the same object of the same class throughout.
-/

namespace ObjectSpace

open Success

namespace Resident

/-- What a request that only reads can make of an object. -/
inductive Read (o : Resident) : Resident → Prop where
  | stay : Read o o
  | load {f : Field} {slot : Option ByteArray} {v : Value} (hf : f ∈ o.schema.fields)
      (hcache : o.state.cache.get? f.index = none) (hv : Proxy.slotValue f slot = .ok v) :
      Read o { o with state := o.state.load f.index v }

/-- What one request can make of an object. -/
inductive Change (o : Resident) : Resident → Prop where
  | read {o' : Resident} (h : Read o o') : Change o o'
  | stage {f : Field} {v c : Value} (hf : f ∈ o.schema.fields)
      (hc : f.shape.coerce f.name v = .ok c) : Change o { o with state := o.state.stage f.index c }
  | evict (i : UInt32) : Change o { o with state := o.state.evict i }
  | settle {b : Slots} (hb : o.batch = .ok b) : Change o (o.settle b)

/-- What several requests can make of an object. -/
def Changes : Resident → Resident → Prop := Relation.ReflTransGen Change

/-- What several requests that only read can make of an object. -/
def Reads : Resident → Resident → Prop := Relation.ReflTransGen Read

variable {o o' : Resident}

theorem Change.stay : Change o o := .read .stay

theorem Reads.changes (h : Reads o o') : Changes o o' :=
  Relation.ReflTransGen.mono (fun _ _ => Change.read) o o' h

theorem Read.identity (h : Read o o') : o'.identity = o.identity := by
  cases h <;> rfl

theorem Read.schema (h : Read o o') : o'.schema = o.schema := by
  cases h <;> rfl

theorem Read.dirty (h : Read o o') : o'.state.dirty = o.state.dirty := by
  cases h <;> rfl

/-- What is in memory is not loaded again. -/
theorem Read.cached (h : Read o o') {i : UInt32} {v : Value} (hv : o.state.cache.get? i = some v) :
    o'.state.cache.get? i = some v := by
  cases h with
  | stay => exact hv
  | @load f slot w hf hcache hw =>
    have hne : i ≠ f.index := by
      rintro rfl
      rw [hcache] at hv
      cases hv
    change (o.state.cache.insert f.index w).get? i = some v
    rw [Table.get?_insert, if_neg hne, hv]

theorem Reads.dirty (h : Reads o o') : o'.state.dirty = o.state.dirty := by
  induction h with
  | refl => rfl
  | tail _ hstep ih => exact hstep.dirty.trans ih

theorem Reads.cached (h : Reads o o') {i : UInt32} {v : Value}
    (hv : o.state.cache.get? i = some v) : o'.state.cache.get? i = some v := by
  induction h with
  | refl => exact hv
  | tail _ hstep ih => exact hstep.cached ih

theorem Change.identity (h : Change o o') : o'.identity = o.identity := by
  cases h with
  | read h => exact h.identity
  | stage => rfl
  | evict => rfl
  | settle => rfl

theorem Change.schema (h : Change o o') : o'.schema = o.schema := by
  cases h with
  | read h => exact h.schema
  | stage => rfl
  | evict => rfl
  | settle => rfl

/-- What every change keeps is kept by any number of them. -/
theorem Changes.keeps {p : Resident → Prop} (hp : ∀ o o', Change o o' → p o → p o')
    (h : Changes o o') (ho : p o) : p o' := by
  induction h with
  | refl => exact ho
  | tail _ hstep ih => exact hp _ _ hstep ih

theorem Changes.identity (h : Changes o o') : o'.identity = o.identity :=
  h.keeps (p := fun x => x.identity = o.identity) (fun _ _ hc hx => hc.identity.trans hx) rfl

theorem Changes.schema (h : Changes o o') : o'.schema = o.schema :=
  h.keeps (p := fun x => x.schema = o.schema) (fun _ _ hc hx => hc.schema.trans hx) rfl

theorem mem_fields_of_field {name : String} {f : Field} (h : o.field name = .ok f) :
    f ∈ o.schema.fields := by
  unfold field at h
  split at h
  case h_1 hf =>
    cases h
    exact Class.mem_of_field? hf
  case h_2 => cases h

/-! ## Changes without the store -/

theorem Change.set {name : String} {v c : Value} (h : o.set name v = .ok (c, o')) :
    Change o o' := by
  obtain ⟨f, hf, h⟩ := bind_eq_ok.1 h
  obtain ⟨c', hc, h⟩ := bind_eq_ok.1 h
  cases h
  exact .stage (mem_fields_of_field hf) (mapError_eq_ok.1 hc)

theorem Change.write {accessor : String} {v c : Value} (h : o.write accessor v = .ok (c, o')) :
    Change o o' := by
  obtain ⟨name, _, h⟩ := bind_eq_ok.1 h
  exact .set h

theorem Change.setReference {name : String} {t : Target} {id : Identity}
    (h : o.setReference name t = .ok (id, o')) : Change o o' := by
  obtain ⟨classId, _, h⟩ := bind_eq_ok.1 h
  obtain ⟨id', _, h⟩ := bind_eq_ok.1 h
  obtain ⟨⟨c, o''⟩, hset, h⟩ := bind_eq_ok.1 h
  cases h
  exact .set hset

theorem Change.clearReference {name : String} (h : o.clearReference name = .ok o') :
    Change o o' := by
  obtain ⟨classId, _, h⟩ := bind_eq_ok.1 h
  obtain ⟨⟨c, o''⟩, hset, h⟩ := bind_eq_ok.1 h
  cases h
  exact .set hset

theorem Change.invalidate {name : String} (h : o.invalidate name = .ok o') : Change o o' := by
  obtain ⟨f, _, h⟩ := bind_eq_ok.1 h
  cases h
  exact .evict f.index

variable {σ : Type} {s : σ}

/-- A change of an object alone either succeeds or leaves the object as it is. -/
theorem Change.change {α : Type} {f : Resident → Except StateError (α × Resident)}
    (h : ∀ a o', f o = .ok (a, o') → Change o o') :
    Change o (Resident.change f (o, s)).2.1 := by
  unfold Resident.change Run.onFirst Run.update
  dsimp only
  split
  case h_1 a o' heq => exact h a o' heq
  case h_2 => exact .stay

/-! ## Changes in front of a store -/

variable [Store σ]

theorem Read.getField {f : Field} (hf : f ∈ o.schema.fields) :
    Read o (getField f (o, s)).2.1 := by
  unfold Resident.getField
  dsimp only
  split
  · exact .stay
  case h_2 hcache =>
    split
    · split
      case h_1 hv => exact .load hf hcache hv
      case h_2 => exact .stay
    · exact .stay
    · exact .stay

theorem Read.get (name : String) : Read o (get name (o, s)).2.1 := by
  unfold Resident.get
  dsimp only
  split
  case h_1 hf => exact .getField (mem_fields_of_field hf)
  case h_2 => exact .stay

theorem Read.read (accessor : String) : Read o (read accessor (o, s)).2.1 := by
  unfold Resident.read
  rw [Run.bind_apply, Run.getState]
  dsimp only
  rw [Run.bind_apply]
  cases o.accessed accessor .read with
  | ok name => exact .get name
  | error e => exact .stay

theorem Read.reference (registry : Registry) (name : String) :
    Read o (reference registry name (o, s)).2.1 := by
  unfold Resident.reference
  rw [Run.bind_apply, Run.getState]
  dsimp only
  rw [Run.bind_apply]
  cases o.referencedClass name with
  | error e => exact .stay
  | ok classId =>
    change Read o (((Resident.get name >>= fun v => .ofExcept (proxyOf registry classId v)) :
      Run (Resident × σ) StateError (Option Proxy)) (o, s)).2.1
    have hget : Read o (Resident.get name (o, s)).2.1 := .get name
    rw [Run.bind_apply]
    rcases hr : Resident.get name (o, s) with ⟨out, o', s'⟩
    rw [hr] at hget
    cases out <;> exact hget

theorem Change.flush : Change o (flush (o, s)).2.1 := by
  unfold Resident.flush
  dsimp only
  split
  · split
    · exact .stay
    case h_2 hb =>
      split
      · exact .settle hb
      · exact .stay
      · exact .stay
  · exact .stay

end Resident

open Resident (Read Change Changes)

variable {σ : Type} [Store σ] {o : Resident}

/-- The request asks the object for something and changes nothing in it. -/
def Request.Reads : Request → Prop
  | get _ | read _ | reference _ | isDirty | dirtyFields | asReference | phase _ | state => True
  | set _ _ | write _ _ | setReference _ _ | clearReference _ | invalidate _ | flush => False

theorem Request.Reads.read (registry : Registry) {r : Request} (h : r.Reads) (s : σ) :
    Read o (r.run registry (o, s)).2.1 := by
  cases r with
  | get name => exact .get name
  | read accessor => exact .read accessor
  | reference name => exact .reference registry name
  | isDirty | dirtyFields | asReference | phase | state => exact .stay
  | set | write | setReference | clearReference | invalidate | flush => cases h

theorem Request.change (registry : Registry) (r : Request) (s : σ) :
    Change o (r.run registry (o, s)).2.1 := by
  cases r with
  | get name => exact .read (.get name)
  | set name v => exact .change fun _ _ h => .set h
  | read accessor => exact .read (.read accessor)
  | write accessor v => exact .change fun _ _ h => .write h
  | setReference name t => exact .change fun _ _ h => .setReference h
  | reference name => exact .read (.reference registry name)
  | clearReference name =>
    refine .change fun _ _ h => ?_
    obtain ⟨o', ho, h⟩ := map_eq_ok.1 h
    cases h
    exact .clearReference ho
  | invalidate name =>
    refine .change fun _ _ h => ?_
    obtain ⟨o', ho, h⟩ := map_eq_ok.1 h
    cases h
    exact .invalidate ho
  | flush => exact .flush
  | isDirty | dirtyFields | asReference | phase | state => exact .stay

/-! ## Bodies -/

/-- All requests that the action may come to are of this kind. -/
inductive Action.Only (p : Request → Prop) {α : Type} : Action α → Prop
  | done {a : α} : Only p (done a)
  | fail {e : ApplicationError} : Only p (fail e)
  | crash : Only p crash
  | pause {rest : Action α} (h : Only p rest) : Only p (pause rest)
  | perform {r : Request} {next : Except StateError r.Answer → Action α} (hr : p r)
      (h : ∀ x, Only p (next x)) : Only p (perform r next)

theorem Action.only_of_forall {α : Type} {p : Request → Prop} (hp : ∀ r, p r) (a : Action α) :
    a.Only p := by
  induction a with
  | done a => exact .done
  | fail e => exact .fail
  | crash => exact .crash
  | pause rest ih => exact .pause ih
  | perform r next ih => exact .perform (hp r) ih

/-- An invocation decodes the arguments, runs the body and encodes what it returns. -/
theorem Operation.tryInvoke_apply (registry : Registry) (op : Operation) (e : Envelope)
    (scene : Scene σ) : op.tryInvoke registry e scene =
      match op.decodeArguments e.payload with
      | .error err => (.fail err, scene)
      | .ok args =>
        match (op.body args ⟨scene.object.identity, e.method, e.options⟩).run registry scene with
        | (.ok v, scene) => (.ofExcept (op.encodeResult v), scene)
        | (.fail err, scene) => (.fail (.application err), scene)
        | (.crash, scene) => (.crash, scene) := by
  unfold Operation.tryInvoke
  rw [Run.bind_apply]
  cases op.decodeArguments e.payload with
  | error err => rfl
  | ok args =>
    change (((((op.body args ⟨scene.object.identity, e.method, e.options⟩).run registry).mapError
      .application >>= fun v => .ofExcept (op.encodeResult v)) :
        Run (Scene σ) InvokeError ByteArray) scene) = _
    rw [Run.bind_apply, Run.mapError]
    dsimp only
    rcases (op.body args ⟨scene.object.identity, e.method, e.options⟩).run registry scene with
      ⟨out, scene'⟩
    cases out <;> rfl

/-- The object and the store that a scene is made of. -/
def Scene.parts (scene : Scene σ) : Resident × σ := (scene.object, scene.store)

section

variable {p : Request → Prop} {R : Resident × σ → Resident × σ → Prop} {registry : Registry}
  (hR : ∀ (r : Request) (o : Resident) (s : σ), p r → R (o, s) (r.run registry (o, s)).2)

include hR

/-- A body works on its object and the store one request after the other. -/
theorem Action.Only.steps {α : Type} {a : Action α} (h : a.Only p) (scene : Scene σ) :
    Relation.ReflTransGen R scene.parts (a.run registry scene).2.parts := by
  induction h generalizing scene with
  | done => exact .refl
  | fail => exact .refl
  | crash => exact .refl
  | pause _ ih => exact ih { scene with late := true }
  | @perform r next hr _ ih =>
    have hfirst : R scene.parts (Scene.onObject (r.run registry) scene).2.parts :=
      hR r scene.object scene.store hr
    unfold Action.run
    rcases hrun : Scene.onObject (r.run registry) scene with ⟨out, scene'⟩
    rw [hrun] at hfirst
    cases out with
    | ok answer => exact .head hfirst (ih (.ok answer) scene')
    | fail e => exact .head hfirst (ih (.error e) scene')
    | crash => exact .single hfirst

theorem Operation.steps {op : Operation} (h : ∀ args callMeta, (op.body args callMeta).Only p)
    (e : Envelope) (scene : Scene σ) :
    Relation.ReflTransGen R scene.parts (op.tryInvoke registry e scene).2.parts := by
  rw [tryInvoke_apply]
  cases op.decodeArguments e.payload with
  | error err => exact .refl
  | ok args =>
    have hsteps := (h args ⟨scene.object.identity, e.method, e.options⟩).steps hR scene
    dsimp only
    rcases hr : (op.body args ⟨scene.object.identity, e.method, e.options⟩).run registry scene with
      ⟨out, scene'⟩
    rw [hr] at hsteps
    cases out <;> exact hsteps

end

/-- The body only reads. -/
def Operation.Reads (op : Operation) : Prop :=
  ∀ args callMeta, (op.body args callMeta).Only Request.Reads

theorem Action.changes {α : Type} (registry : Registry) (a : Action α) (scene : Scene σ) :
    Changes scene.object (a.run registry scene).2.object := by
  have honly : a.Only fun _ => True := Action.only_of_forall (fun _ => trivial) a
  have hsteps := honly.steps (R := fun t t' : Resident × σ => Change t.1 t'.1)
    (fun r _ s _ => r.change registry s) scene
  exact hsteps.lift Prod.fst fun _ _ h => h

theorem Operation.changes (registry : Registry) (op : Operation) (e : Envelope) (scene : Scene σ) :
    Changes scene.object (op.tryInvoke registry e scene).2.object := by
  have honly : ∀ args callMeta, (op.body args callMeta).Only fun _ => True :=
    fun _ _ => Action.only_of_forall (fun _ => trivial) _
  have hsteps := Operation.steps (R := fun t t' : Resident × σ => Change t.1 t'.1)
    (fun r _ s _ => r.change registry s) honly e scene
  exact hsteps.lift Prod.fst fun _ _ h => h

theorem Operation.Reads.reads (registry : Registry) {op : Operation} (h : op.Reads) (e : Envelope)
    (scene : Scene σ) :
    Resident.Reads scene.object (op.tryInvoke registry e scene).2.object := by
  have hsteps := Operation.steps (R := fun t t' : Resident × σ => Read t.1 t'.1)
    (fun _ _ s hr => Request.Reads.read registry hr s) h e scene
  exact hsteps.lift Prod.fst fun _ _ h => h

end ObjectSpace
