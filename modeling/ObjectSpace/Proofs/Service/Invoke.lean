import ObjectSpace.Proofs.Object.Change
import ObjectSpace.Proofs.Store.Lawful
import ObjectSpace.Service.Catalog

/-!
# What an invocation does

What a body returns is encoded as the result of the invocation. A body that never flushes its object
only reads the store.
-/

namespace ObjectSpace

variable {σ : Type} [Store σ]

/-- A result that was encoded was returned by the body, which was called with the arguments that the
payload holds. -/
theorem Operation.exists_returned {registry : Registry} {op : Operation} {e : Envelope}
    {scene scene' : Scene σ} {bytes : ByteArray}
    (h : op.tryInvoke registry e scene = (.ok bytes, scene')) :
    ∃ args v, op.decodeArguments e.payload = .ok args ∧
      (op.body args ⟨scene.object.identity, e.method, e.options⟩).run registry scene =
        (.ok v, scene') ∧ op.encodeResult v = .ok bytes := by
  rw [tryInvoke_apply] at h
  split at h
  · cases h
  case h_2 args hargs =>
    split at h
    case h_1 v scene'' hrun =>
      obtain ⟨hbytes, rfl⟩ := Prod.mk.inj h
      refine ⟨args, v, hargs, hrun, ?_⟩
      cases hv : op.encodeResult v with
      | ok b =>
        rw [hv] at hbytes
        cases hbytes
        rfl
      | error err =>
        rw [hv] at hbytes
        cases hbytes
    · cases h
    · cases h

/-! ## Reading the store -/

/-- The store was read any number of times, and nothing else. -/
def Store.Reads : σ → σ → Prop :=
  Relation.ReflTransGen fun s s' => ∃ id i, s' = (Store.get id i s).2

/-- The store was read once at most, and nothing else. -/
inductive Store.Looks (s : σ) : σ → Prop
  | none : Looks s s
  | get (id : Identity) (i : UInt32) : Looks s (Store.get id i s).2

theorem Store.Looks.reads {s s' : σ} (h : Store.Looks s s') : Store.Reads s s' := by
  cases h with
  | none => exact .refl
  | get id i => exact .single ⟨id, i, rfl⟩

theorem Store.Reads.slots [LawfulStore σ] {s s' : σ} (h : Store.Reads s s') :
    LawfulStore.slots s' = LawfulStore.slots s := by
  induction h with
  | refl => rfl
  | tail _ hstep ih =>
    obtain ⟨id, i, rfl⟩ := hstep
    exact (LawfulStore.get_slots rfl).trans ih

namespace Resident

theorem looks_getField (f : Field) (o : Resident) (s : σ) :
    Store.Looks s (getField f (o, s)).2.2 := by
  have hget : Store.Looks s (Store.get o.identity f.index s).2 := .get o.identity f.index
  unfold getField
  dsimp only
  cases o.state.cache.get? f.index with
  | some v => exact .none
  | none =>
    dsimp only
    rcases hr : Store.get o.identity f.index s with ⟨out, s'⟩
    rw [hr] at hget
    cases out with
    | ok slot => cases hv : Proxy.slotValue f slot <;> simp only [hv] <;> exact hget
    | fail e => exact hget
    | crash => exact hget

theorem looks_get (name : String) (o : Resident) (s : σ) :
    Store.Looks s (get name (o, s)).2.2 := by
  unfold get
  dsimp only
  cases o.field name with
  | ok f => exact looks_getField f o s
  | error e => exact .none

theorem looks_read (accessor : String) (o : Resident) (s : σ) :
    Store.Looks s (read accessor (o, s)).2.2 := by
  unfold Resident.read
  rw [Run.look_bind_apply fun t : Resident × σ => t.1.accessed accessor .read]
  cases o.accessed accessor .read with
  | ok name => exact looks_get name o s
  | error e => exact .none

theorem looks_reference (registry : Registry) (name : String) (o : Resident) (s : σ) :
    Store.Looks s (reference registry name (o, s)).2.2 := by
  unfold Resident.reference
  rw [Run.look_bind_apply fun t : Resident × σ => t.1.referencedClass name]
  cases o.referencedClass name with
  | error e => exact .none
  | ok classId =>
    change Store.Looks s (((Resident.get name >>= fun v => .ofExcept (proxyOf registry classId v)) :
      Run (Resident × σ) StateError (Option Proxy)) (o, s)).2.2
    have hget := looks_get name o s
    rw [Run.bind_apply]
    rcases hr : Resident.get name (o, s) with ⟨out, o', s'⟩
    rw [hr] at hget
    cases out <;> exact hget

end Resident

/-- No request but a flush reaches for the store other than to read it once. -/
theorem Request.looks_store (registry : Registry) {r : Request} (h : r ≠ .flush) (o : Resident)
    (s : σ) : Store.Looks s (r.run registry (o, s)).2.2 := by
  cases r with
  | get name => exact Resident.looks_get name o s
  | read accessor => exact Resident.looks_read accessor o s
  | reference name => exact Resident.looks_reference registry name o s
  | flush => exact absurd rfl h
  | set | write | setReference | clearReference | invalidate => exact .none
  | isDirty | dirtyFields | asReference | phase | state => exact .none

/-- The body works on the fields of its object and leaves it to others to write them. -/
def Operation.NeverFlushes (op : Operation) : Prop :=
  ∀ args callMeta, (op.body args callMeta).Only (· ≠ .flush)

theorem Operation.NeverFlushes.reads_store {op : Operation} (h : op.NeverFlushes)
    (registry : Registry) (e : Envelope) (scene : Scene σ) :
    Store.Reads scene.store (op.tryInvoke registry e scene).2.store := by
  have hsteps := Operation.steps (R := fun t t' : Resident × σ => Store.Looks t.2 t'.2)
    (fun _ o s hr => Request.looks_store registry hr o s) h e scene
  exact hsteps.lift' Prod.snd fun _ _ hlooks => hlooks.reads

/-! ## A method without arguments -/

/-- A method that sets the count of its object and then does the rest. -/
def Operation.counting (name : String) (returns : Shape) (rest : Action Value) : Operation :=
  ⟨⟨name, .noArguments, [], returns, none⟩, fun _ _ => do
    let _ ← Action.ask (.set "count" (.int 5))
    rest⟩

theorem Operation.neverFlushes_counting {name : String} {returns : Shape} {rest : Action Value}
    (h : rest.Only (· ≠ .flush)) : (counting name returns rest).NeverFlushes := by
  intro args callMeta
  refine .perform (by simp) fun x => ?_
  cases x with
  | ok v => exact h
  | error e => exact .fail

/-- The service of counters that can be set. -/
def Service.settable : Service :=
  ⟨⟨"Counter", [.of "count" 0 .int none], [.counting "set" .any (.done .null)], []⟩, by decide⟩

end ObjectSpace
