import ObjectSpace.Proofs.Object.Change
import ObjectSpace.Proofs.Object.Flush
import ObjectSpace.Proofs.Store.Related

/-!
# Objects over related stores

An object asks its store about itself alone. So over stores that are related on its identity it
answers every request alike, and so do the bodies that work on it.
-/

namespace ObjectSpace

variable {σ τ α : Type} {A : Identity → Prop} {R : σ → τ → Prop}

namespace Resident

/-- The same object, one of `A`, over each of two stores. -/
structure Over (A : Identity → Prop) (R : σ → τ → Prop) (x : Resident × σ) (y : Resident × τ) :
    Prop where
  object : y.1 = x.1
  mine : A x.1.identity
  stores : R x.2 y.2

theorem parallel_change {f : Resident → Except StateError (α × Resident)}
    (hf : ∀ o a o', f o = .ok (a, o') → Change o o') :
    Run.Parallel (Over A R) (change f) (change f) := by
  rintro ⟨_, s⟩ ⟨o, t⟩ ⟨rfl, hA, hR⟩
  unfold change Run.onFirst Run.update
  dsimp only
  cases h : f o with
  | error e => exact ⟨rfl, rfl, hA, hR⟩
  | ok p => exact ⟨rfl, rfl, (hf o p.1 p.2 h).identity ▸ hA, hR⟩

/-- What is seen of an object has nothing to do with its store. -/
theorem parallel_look (f : Resident → Except StateError α) :
    Run.Parallel (Over A R) (look f) (look f) := by
  rintro ⟨_, s⟩ ⟨o, t⟩ ⟨rfl, hA, hR⟩
  exact ⟨rfl, rfl, hA, hR⟩

variable [Store σ] [Store τ] (hrelated : Store.Related A R)

include hrelated

theorem parallel_getField (f : Field) :
    Run.Parallel (Over A R) (getField f) (getField f) := by
  rintro ⟨_, s⟩ ⟨o, t⟩ ⟨rfl, hA, hR⟩
  unfold getField
  dsimp only
  cases o.state.cache.get? f.index with
  | some v => exact ⟨rfl, rfl, hA, hR⟩
  | none =>
    obtain ⟨out, s', t', hs, ht, hR'⟩ := (hrelated.get hA f.index).exists_end hR
    rw [hs, ht]
    cases out with
    | ok slot =>
      dsimp only
      cases Proxy.slotValue f slot <;> exact ⟨rfl, rfl, hA, hR'⟩
    | fail e => exact ⟨rfl, rfl, hA, hR'⟩
    | crash => exact ⟨rfl, rfl, hA, hR'⟩

theorem parallel_get (name : String) : Run.Parallel (Over A R) (get name) (get name) := by
  rintro ⟨_, s⟩ ⟨o, t⟩ ⟨rfl, hA, hR⟩
  unfold get
  dsimp only
  cases o.field name with
  | ok f => exact parallel_getField hrelated f ⟨rfl, hA, hR⟩
  | error e => exact ⟨rfl, rfl, hA, hR⟩

theorem parallel_read (accessor : String) :
    Run.Parallel (Over A R) (read accessor) (read accessor) :=
  .look (fun x : Resident × σ => x.1.accessed accessor .read)
    (fun y : Resident × τ => y.1.accessed accessor .read) (fun _ _ h => by rw [h.object])
    (parallel_get hrelated)

theorem parallel_reference (registry : Registry) (name : String) :
    Run.Parallel (Over A R) (reference registry name) (reference registry name) :=
  .look (fun x : Resident × σ => x.1.referencedClass name)
    (fun y : Resident × τ => y.1.referencedClass name) (fun _ _ h => by rw [h.object])
    fun classId => (parallel_get hrelated name).bind fun v =>
      .ofExcept (proxyOf registry classId v)

theorem parallel_flush : Run.Parallel (Over A R) flush flush := by
  rintro ⟨_, s⟩ ⟨o, t⟩ ⟨rfl, hA, hR⟩
  rcases o.write?_cases with ⟨hd, _⟩ | ⟨e, hd, hb, _⟩ | ⟨b, hd, hb, _⟩
  · rw [flush_of_clean hd, flush_of_clean hd]
    exact ⟨rfl, rfl, hA, hR⟩
  · rw [flush_of_not_encoded hd hb, flush_of_not_encoded hd hb]
    exact ⟨rfl, rfl, hA, hR⟩
  · rw [flush_put hd hb, flush_put hd hb]
    obtain ⟨out, s', t', hs, ht, hR'⟩ := (hrelated.put hA b).exists_end hR
    rw [hs, ht]
    cases out <;> exact ⟨rfl, rfl, hA, hR'⟩

end Resident

/-- The same object at work over each of two stores. -/
structure Scene.Over (A : Identity → Prop) (R : σ → τ → Prop) (x : Scene σ) (y : Scene τ) :
    Prop where
  objects : Resident.Over A R (x.object, x.store) (y.object, y.store)
  late : y.late = x.late

theorem Scene.parallel_onObject {ε : Type} {r : Run (Resident × σ) ε α}
    {r' : Run (Resident × τ) ε α} (h : Run.Parallel (Resident.Over A R) r r') :
    Run.Parallel (Over A R) (onObject r) (onObject r') := by
  rintro x y ⟨hobjects, hlate⟩
  obtain ⟨out, x', y', hx, hy, h'⟩ := h.exists_end hobjects
  unfold onObject
  rw [hx, hy]
  exact ⟨rfl, h', hlate⟩

variable [Store σ] [Store τ] (hrelated : Store.Related A R)

include hrelated

theorem Request.parallel (registry : Registry) (r : Request) :
    Run.Parallel (Resident.Over A R) (r.run registry) (r.run registry) := by
  cases r with
  | get name => exact Resident.parallel_get hrelated name
  | set name v => exact Resident.parallel_change fun _ _ _ h => .set h
  | read accessor => exact Resident.parallel_read hrelated accessor
  | write accessor v => exact Resident.parallel_change fun _ _ _ h => .write h
  | setReference name t => exact Resident.parallel_change fun _ _ _ h => .setReference h
  | reference name => exact Resident.parallel_reference hrelated registry name
  | clearReference name =>
    refine Resident.parallel_change fun o _ o' h => ?_
    obtain ⟨o'', ho, h⟩ := Success.map_eq_ok.1 h
    cases h
    exact .clearReference ho
  | invalidate name =>
    refine Resident.parallel_change fun o _ o' h => ?_
    obtain ⟨o'', ho, h⟩ := Success.map_eq_ok.1 h
    cases h
    exact .invalidate ho
  | flush => exact Resident.parallel_flush hrelated
  | isDirty | dirtyFields | asReference | phase | state => exact Resident.parallel_look _

/-- A body works on its object one request after the other. -/
theorem Action.parallel (registry : Registry) (a : Action α) :
    Run.Parallel (Scene.Over A R) (a.run registry) (a.run registry) := by
  induction a with
  | done a => exact fun _ _ h => ⟨rfl, h⟩
  | fail e => exact fun _ _ h => ⟨rfl, h⟩
  | crash => exact fun _ _ h => ⟨rfl, h⟩
  | pause rest ih => exact fun _ _ h => ih ⟨h.objects, rfl⟩
  | perform r next ih =>
    intro x y h
    obtain ⟨out, x', y', hx, hy, h'⟩ :=
      (Scene.parallel_onObject (r.parallel hrelated registry)).exists_end h
    unfold Action.run
    rw [hx, hy]
    cases out with
    | ok answer => exact ih (.ok answer) h'
    | fail e => exact ih (.error e) h'
    | crash => exact ⟨rfl, h'⟩

theorem Operation.parallel (registry : Registry) (op : Operation) (e : Envelope) :
    Run.Parallel (Scene.Over A R) (op.tryInvoke registry e) (op.tryInvoke registry e) := by
  intro x y h
  have hid : y.object.identity = x.object.identity := congrArg Resident.identity h.objects.object
  rw [tryInvoke_apply, tryInvoke_apply, hid]
  cases op.decodeArguments e.payload with
  | error err => exact ⟨rfl, h⟩
  | ok args =>
    obtain ⟨out, x', y', hx, hy, h'⟩ := ((op.body args ⟨x.object.identity, e.method,
      e.options⟩).parallel hrelated registry).exists_end h
    dsimp only
    rw [hx, hy]
    cases out <;> exact ⟨rfl, h'⟩

end ObjectSpace
