import ObjectSpace.Proofs.Class.Fields
import ObjectSpace.Proofs.Codec.Payload
import ObjectSpace.Proofs.Object.Flush
import ObjectSpace.Proofs.Object.Operation
import ObjectSpace.Proofs.Reference.Proxy
import ObjectSpace.Proofs.Session.Step

/-!
# Accessors from here and from afar

An accessor that is written through a proxy encodes the value and puts it in its slot at once. One
that is written on an object in a session keeps the value in memory, and the flush encodes and puts
it. Both ask the store for the same, so they end the same; and a freshly loaded object reads what
the proxy reads.
-/

namespace ObjectSpace

open Success

/-- The same result, or no result in the same way. -/
inductive Outcome.Agrees {ε ε' α : Type} : Outcome ε α → Outcome ε' α → Prop
  | ok (a : α) : Agrees (.ok a) (.ok a)
  | fail (e : ε) (e' : ε') : Agrees (.fail e) (.fail e')
  | crash : Agrees .crash .crash

theorem Outcome.Agrees.mapError {ε ε' ε'' α : Type} {x : Outcome ε α} {y : Outcome ε' α}
    (h : x.Agrees y) (f : ε' → ε'') : x.Agrees (y.mapError f) := by
  cases h <;> constructor

/-- One computation works on the store alone and the other has something in memory. They end the
same and leave the same store. -/
structure EndsAlike {ε ε' α σ τ : Type} (x : Outcome ε α × σ) (y : Outcome ε' α × (τ × σ)) :
    Prop where
  result : x.1.Agrees y.1
  store : y.2.2 = x.2

namespace Resident

variable {σ : Type} [Store σ] {id : Identity} {c : Class} {accessor : String} {f : Field}

/-- Writes an accessor and flushes the object; the value as it was stored. -/
def writeOut (accessor : String) (v : Value) : Run (Resident × σ) StateError Value := do
  let w ← .update fun (o, store) => (o.write accessor v).map fun (w, o) => (w, (o, store))
  let _ ← flush
  return w

/-- Both find the field behind an accessor, or neither does. -/
theorem accessed_cases (id : Identity) (c : Class) (accessor : String) (access : Access) :
    (∃ f, f ∈ c.fields ∧ Proxy.accessed ⟨id, c⟩ accessor access = .ok f ∧
      ((loaded id c).accessed accessor access >>= (loaded id c).field) = .ok f) ∨
    ∃ e e', Proxy.accessed ⟨id, c⟩ accessor access = .error e ∧
      ((loaded id c).accessed accessor access >>= (loaded id c).field) = .error e' := by
  unfold Proxy.accessed accessed field loaded
  dsimp only
  cases c.accessor? accessor with
  | none => exact .inr ⟨_, _, rfl, rfl⟩
  | some a =>
    dsimp only
    split
    · cases hf : c.field? a.field with
      | none =>
        exact .inr ⟨_, .unknownField id.classId a.field, rfl, by simp [bind, Except.bind, hf]⟩
      | some f =>
        exact .inl ⟨f, Class.mem_of_field? hf, rfl, by simp [bind, Except.bind, hf]⟩
    · exact .inr ⟨_, _, rfl, rfl⟩

/-! ## Writing -/

/-- A loaded object with one value to write. -/
def staged (id : Identity) (c : Class) (f : Field) (w : Value) : Resident :=
  { loaded id c with state := FieldState.unloaded.stage f.index w }

theorem batch_staged (hf : f ∈ c.fields) (w : Value) : (staged id c f w).batch =
    ((f.shape.encode f.name w).mapError StateError.codec).map (Table.empty.insert f.index ·) := by
  have hfield : (staged id c f w).schema.fieldAt? f.index = some f :=
    Class.fieldAt?_eq_some_iff.2 ⟨hf, rfl⟩
  have hcache : (staged id c f w).state.cache.get? f.index = some w := by
    change (Table.insert {} f.index w).get? f.index = some w
    rw [Table.get?_insert, if_pos rfl]
  change (staged id c f w).encodeDirty [f.index] = _
  unfold encodeDirty
  rw [hfield, hcache]
  dsimp only [Option.getD_some]
  cases f.shape.encode f.name w <;> rfl

/-- The flush asks the store for what the proxy asks it for. -/
theorem flush_staged (hf : f ∈ c.fields) (w : Value) (store : σ) :
    flush (staged id c f w, store) = match f.shape.encode f.name w with
      | .error e => (.fail (.codec e), (staged id c f w, store))
      | .ok payload =>
        match Store.put id (Table.empty.insert f.index payload) store with
        | (.ok (), store) =>
          (.ok 1, ((staged id c f w).settle (Table.empty.insert f.index payload), store))
        | (.fail e, store) => (.fail (.store e), (staged id c f w, store))
        | (.crash, store) => (.crash, (staged id c f w, store)) := by
  have hbatch : (staged id c f w).batch = _ := batch_staged hf w
  cases hp : f.shape.encode f.name w with
  | error e =>
    rw [hp] at hbatch
    exact flush_of_not_encoded rfl hbatch
  | ok payload =>
    rw [hp] at hbatch
    exact flush_put rfl hbatch

theorem writeOut_loaded (v : Value) (store : σ) :
    writeOut accessor v (loaded id c, store) =
      match (loaded id c).accessed accessor .write >>= (loaded id c).field with
      | .error e => (.fail e, (loaded id c, store))
      | .ok f =>
        match f.shape.coerce f.name v with
        | .error e => (.fail (.mismatch e), (loaded id c, store))
        | .ok w => ((flush >>= fun _ => pure w : Run (Resident × σ) StateError Value)
            (staged id c f w, store)) := by
  unfold writeOut
  rw [Run.bind_apply]
  unfold Run.update
  dsimp only
  rw [write_eq]
  cases (loaded id c).accessed accessor .write >>= (loaded id c).field with
  | error e => rfl
  | ok f =>
    dsimp only [bind, Except.bind]
    cases f.shape.coerce f.name v <;> rfl

/-! ## From here and from afar -/

theorem endsAlike_write (id : Identity) (c : Class) (accessor : String) (v : Value) (store : σ) :
    EndsAlike (Proxy.write ⟨id, c⟩ accessor v store)
      (writeOut accessor v (loaded id c, store)) := by
  rw [Proxy.write_apply, writeOut_loaded]
  rcases accessed_cases id c accessor .write with ⟨f, hf, hp, ho⟩ | ⟨e, e', hp, ho⟩
  · rw [hp, ho]
    dsimp only
    cases f.shape.coerce f.name v with
    | error e => exact ⟨.fail _ _, rfl⟩
    | ok w =>
      dsimp only
      rw [Run.bind_apply, flush_staged hf]
      cases f.shape.encode f.name w with
      | error e => exact ⟨.fail _ _, rfl⟩
      | ok payload =>
        dsimp only
        rcases Store.put id (Table.empty.insert f.index payload) store with ⟨out, store'⟩
        cases out with
        | ok u => exact ⟨.ok w, rfl⟩
        | fail e => exact ⟨.fail _ _, rfl⟩
        | crash => exact ⟨.crash, rfl⟩
  · rw [hp, ho]
    exact ⟨.fail e e', rfl⟩

theorem endsAlike_read (id : Identity) (c : Class) (accessor : String) (store : σ) :
    EndsAlike (Proxy.read ⟨id, c⟩ accessor store) (read accessor (loaded id c, store)) := by
  rw [Proxy.read_apply, read_apply]
  rcases accessed_cases id c accessor .read with ⟨f, _, hp, ho⟩ | ⟨e, e', hp, ho⟩
  · rw [hp, ho]
    have hcache : (loaded id c).state.cache.get? f.index = none := rfl
    unfold getField
    dsimp only
    rw [hcache]
    dsimp only [loaded]
    rcases Store.get id f.index store with ⟨out, store'⟩
    cases out with
    | ok slot =>
      dsimp only
      cases Proxy.slotValue f slot with
      | ok v => exact ⟨.ok v, rfl⟩
      | error e => exact ⟨.fail _ _, rfl⟩
    | fail e => exact ⟨.fail _ _, rfl⟩
    | crash => exact ⟨.crash, rfl⟩
  · rw [hp, ho]
    exact ⟨.fail e e', rfl⟩

end Resident

namespace Session

variable {σ : Type} {r : Registry} {id : Identity} {c : Class} {s : Session}

/-- Brings an object in and works on it. -/
def onLoaded {α : Type} (r : Registry) (id : Identity) (work : Run (Resident × σ) StateError α) :
    Run (Session × σ) SessionError α := do
  Run.update fun (s, store) => (s.load r id.classId id).map fun s => ((), (s, store))
  onObject id work

/-- The session passes on what the work on the object comes to. -/
theorem endsAlike_onLoaded {ε α : Type} {x : Outcome ε α × σ} {store : σ}
    {work : Run (Resident × σ) StateError α} (hid : id.validate = .ok ())
    (hc : r.find id.classId = .ok c) (hs : s.isResident id = false)
    (h : EndsAlike x (work (.loaded id c, store))) :
    EndsAlike x (onLoaded r id work (s, store)) := by
  have hobject : object? { s with objects := s.objects.insert id (.loaded id c) } id =
      some (.loaded id c) := by
    unfold object?
    rw [Table.get?_insert, if_pos rfl]
  unfold onLoaded
  rw [Run.bind_apply]
  unfold Run.update
  dsimp only
  rw [load_absent hid hc hs]
  dsimp only [Except.map]
  unfold onObject
  dsimp only
  rw [hobject]
  exact ⟨h.result.mapError _, h.store⟩

/-- A proxy and a session are two ways to the same slots. An accessor that is written through a
proxy, and one that is written on an object just loaded and flushed, end the same and leave the same
store; and both read the same. -/
theorem accessors_agree [Store σ] (hid : id.validate = .ok ()) (hc : r.find id.classId = .ok c)
    (hs : s.isResident id = false) : ∃ p, r.proxy (.record id) = .ok p ∧
      ∀ (accessor : String) (v : Value) (store : σ),
        EndsAlike (p.write accessor v store)
          (onLoaded r id (Resident.writeOut accessor v) (s, store)) ∧
        EndsAlike (p.read accessor store)
          (onLoaded r id (Resident.read accessor) (s, store)) := by
  have hnormal : (Target.record id).normalize = .ok id :=
    bind_eq_ok.2 ⟨id, rfl, bind_eq_ok.2 ⟨(), hid, rfl⟩⟩
  have hproxy : r.proxy (.record id) = .ok ⟨id, c⟩ :=
    bind_eq_ok.2 ⟨id, mapError_eq_ok.2 hnormal, Registry.materialize_eq hc⟩
  refine ⟨⟨id, c⟩, hproxy, fun accessor v store => ⟨?_, ?_⟩⟩
  · exact endsAlike_onLoaded hid hc hs (Resident.endsAlike_write id c accessor v store)
  · exact endsAlike_onLoaded hid hc hs (Resident.endsAlike_read id c accessor store)

/-! ## A dial -/

/-- A dial is read and turned through accessors. -/
def dial : Class :=
  ⟨⟨"Dial", [.of "level" 0 .int none], [],
    [⟨"get_level", "level", .read⟩, ⟨"set_level", "level", .write⟩]⟩, by decide⟩

def dialId : Identity := ⟨"Dial", 0, 1⟩

def dials : Registry := ⟨Table.empty.insert "Dial" dial⟩

/-- A store in which the level of the dial is a text. -/
def scratched : Memory :=
  Memory.empty.write dialId (Table.empty.insert 0 (Json.str "high").text.toUTF8)

/-- The dial is turned to a level, and to what is no level; and a level is read that nobody can
read. -/
theorem accessors_agree_dial : ∃ p, dials.proxy (.record dialId) = .ok p ∧
    (let turned := p.write "set_level" (.int 3) Memory.empty
    turned.1 = .ok (.int 3) ∧ EndsAlike turned
      (onLoaded dials dialId (Resident.writeOut "set_level" (.int 3)) (empty 0, Memory.empty))) ∧
    (let refused := p.write "set_level" (.str "high") Memory.empty
    refused.1.isOk = false ∧ EndsAlike refused
      (onLoaded dials dialId (Resident.writeOut "set_level" (.str "high"))
        (empty 0, Memory.empty))) ∧
    (let unread := p.read "get_level" scratched
    unread.1.isOk = false ∧ EndsAlike unread
      (onLoaded dials dialId (Resident.read "get_level") (empty 0, scratched))) := by
  obtain ⟨p, hp, h⟩ := accessors_agree (σ := Memory) (show dialId.validate = .ok () from rfl)
    (show dials.find dialId.classId = .ok dial from rfl)
    (show (empty 0).isResident dialId = false from rfl)
  obtain rfl : ⟨dialId, dial⟩ = p := Except.ok.inj hp
  have hunread : (Proxy.read ⟨dialId, dial⟩ "get_level" scratched).1 =
      .ofExcept ((Shape.int.decode "level" (Json.str "high").text.toUTF8).mapError .codec) := rfl
  rw [Shape.decode_text (.str _) (Nat.zero_le _)] at hunread
  refine ⟨_, hp, ⟨rfl, (h "set_level" (.int 3) Memory.empty).1⟩,
    ⟨rfl, (h "set_level" (.str "high") Memory.empty).1⟩, ?_, (h "get_level" .null scratched).2⟩
  rw [hunread]
  rfl

end Session
end ObjectSpace
