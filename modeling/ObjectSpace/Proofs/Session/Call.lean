import ObjectSpace.Proofs.Codec.Payload
import ObjectSpace.Proofs.Service.Invoke
import ObjectSpace.Session.Call

/-!
# Calls in a session that fail

A call works on a copy of its object, and the copy takes the place of the object when the body has
returned and its result was encoded. After that the call can still fail, as it reads the result
back.
-/

namespace ObjectSpace

open Success

/-- The result reads back out of the text it is encoded as, as far as it conforms. -/
def Method.Legible (m : Method) (v : Value) : Prop :=
  m.returns.Proper ∧ ∀ x, m.returns.coerce "return" v = .ok x → m.returns.Portable 0 x

namespace Session

variable {σ : Type} [Store σ] {c : Catalog} {id : Identity} {method : String} {arg : Value}
  {s s' : Session} {store store' : σ}

/-- In this call the body of the method comes to its end, and returns this value. -/
structure Returned (c : Catalog) (id : Identity) (method : String) (arg : Value)
    (t : Session × σ) (op : Operation) (v : Value) : Prop where
  operation : c.operation id.classId method = .ok op
  body : ∃ payload args o scene, op.method.encodeCall arg = .ok payload ∧
    op.decodeArguments payload = .ok args ∧ t.1.object? id = some o ∧
    (op.body args ⟨o.identity, method, {}⟩).run c.registry ⟨o, t.2, false⟩ = (.ok v, scene)

theorem invokeCopy_of_object {r : Registry} {op : Operation} {e : Envelope} {o : Resident}
    (ho : s.object? id = some o) : invokeCopy r op id e (s, store) =
      match op.tryInvoke r e ⟨o, store, false⟩ with
      | (.ok bytes, scene) => (.ok bytes, (s.putBack scene.object, scene.store))
      | (.fail err, scene) => (.fail (.invoke err), (s, scene.store))
      | (.crash, scene) => (.crash, (s, scene.store)) := by
  unfold invokeCopy
  dsimp only
  exact ho ▸ rfl

theorem invokeLocal_apply (c : Catalog) (id : Identity) (method : String) (arg : Value)
    (t : Session × σ) : invokeLocal c id method arg t =
      match c.operation id.classId method with
      | .error e => (.fail (.invoke e), t)
      | .ok op =>
        match op.method.encodeCall arg with
        | .error e => (.fail (.proxy (.codec e)), t)
        | .ok payload =>
          match invokeCopy c.registry op id ⟨method, payload, {}⟩ t with
          | (.ok bytes, t) =>
            (.ofExcept ((op.method.returns.decode "return" bytes).mapError .codec), t)
          | (.fail e, t) => (.fail e, t)
          | (.crash, t) => (.crash, t) := by
  unfold invokeLocal
  rw [Run.bind_apply]
  cases c.operation id.classId method with
  | error e => rfl
  | ok op =>
    dsimp only [Except.mapError, Run.ofExcept, Run.ofOutcome, Outcome.ofExcept]
    rw [Run.bind_apply]
    cases op.method.encodeCall arg with
    | error e => rfl
    | ok payload =>
      dsimp only [Except.mapError, Run.ofExcept, Run.ofOutcome, Outcome.ofExcept]
      rw [Run.bind_apply]
      rcases invokeCopy c.registry op id ⟨method, payload, {}⟩ t with ⟨out, t'⟩
      cases out <;> rfl

/-- A call that fails either does not come to its object, or it has worked on a copy, which the
session has not taken unless there was a result. -/
theorem invokeLocal_fail {e : SessionError}
    (h : invokeLocal c id method arg (s, store) = (.fail e, (s', store'))) :
    (s' = s ∧ store' = store) ∨ ∃ op payload o scene, c.operation id.classId method = .ok op ∧
      op.method.encodeCall arg = .ok payload ∧ s.object? id = some o ∧ store' = scene.store ∧
      ((s' = s ∧ ∃ err, op.tryInvoke c.registry ⟨method, payload, {}⟩ ⟨o, store, false⟩ =
          (.fail err, scene)) ∨
        ∃ bytes failure, op.tryInvoke c.registry ⟨method, payload, {}⟩ ⟨o, store, false⟩ =
          (.ok bytes, scene) ∧ op.method.returns.decode "return" bytes = .error failure) := by
  rw [invokeLocal_apply] at h
  split at h
  · cases h
    exact .inl ⟨rfl, rfl⟩
  case h_2 op hop =>
    split at h
    · cases h
      exact .inl ⟨rfl, rfl⟩
    case h_2 payload hpayload =>
      cases ho : s.object? id with
      | none =>
        have hcopy : invokeCopy c.registry op id ⟨method, payload, {}⟩ (s, store) =
            (.fail (.notResident id), (s, store)) := by
          unfold invokeCopy
          dsimp only
          rw [ho]
        rw [hcopy] at h
        cases h
        exact .inl ⟨rfl, rfl⟩
      | some o =>
        rw [invokeCopy_of_object ho] at h
        rcases hrun : op.tryInvoke c.registry ⟨method, payload, {}⟩ ⟨o, store, false⟩ with
          ⟨out, scene⟩
        rw [hrun] at h
        refine .inr ⟨op, payload, o, scene, hop, hpayload, rfl, ?_⟩
        cases out with
        | ok bytes =>
          obtain ⟨hout, hstate⟩ := Prod.mk.inj h
          obtain ⟨_, rfl⟩ := Prod.mk.inj hstate
          cases hd : op.method.returns.decode "return" bytes with
          | ok v =>
            rw [hd] at hout
            cases hout
          | error failure => exact ⟨rfl, .inr ⟨bytes, failure, hrun, hd⟩⟩
        | fail err =>
          cases h
          exact ⟨rfl, .inl ⟨rfl, err, hrun⟩⟩
        | crash => cases h

/-- A result that the body returned and that can go through text is read back. -/
theorem exists_decode_of_legible {op : Operation} {v : Value} (hv : op.method.Legible v)
    {bytes : ByteArray} (h : op.encodeResult v = .ok bytes) :
    ∃ x, op.method.returns.decode "return" bytes = .ok x := by
  obtain ⟨x, hx, hencode⟩ := bind_eq_ok.1 (mapError_eq_ok.1 h)
  have hx := mapError_eq_ok.1 hx
  obtain ⟨_, hdecode⟩ :=
    Shape.decode_of_encode (Shape.canonical_of_coerce hv.1 hx) (hv.2 x hx) hencode
  obtain ⟨y, hy, _⟩ := hdecode "return"
  exact ⟨y, hy⟩

/-- A local call that fails leaves no trace: none in the session if what its body has returned, if
anything, can be read back, and none in the store if the body does not flush the object itself. -/
theorem failed_call_leaves_no_trace [LawfulStore σ] {e : SessionError}
    (h : invokeLocal c id method arg (s, store) = (.fail e, (s', store'))) :
    ((∀ op v, Returned c id method arg (s, store) op v → op.method.Legible v) → s' = s) ∧
      ((∀ op, c.operation id.classId method = .ok op → op.NeverFlushes) →
        LawfulStore.slots store' = LawfulStore.slots store) := by
  rcases invokeLocal_fail h with
    ⟨rfl, rfl⟩ | ⟨op, payload, o, scene, hop, hpayload, ho, rfl, hend⟩
  · exact ⟨fun _ => rfl, fun _ => rfl⟩
  constructor
  · intro hlegible
    rcases hend with ⟨rfl, _⟩ | ⟨bytes, failure, hrun, hdecode⟩
    · rfl
    · obtain ⟨args, v, hargs, hbody, hencode⟩ := Operation.exists_returned hrun
      have hreturned : Returned c id method arg (s, store) op v :=
        ⟨hop, payload, args, o, scene, hpayload, hargs, ho, hbody⟩
      obtain ⟨x, hx⟩ := exists_decode_of_legible (hlegible op v hreturned) hencode
      cases hx.symm.trans hdecode
  · intro hflushes
    have hreads := (hflushes op hop).reads_store c.registry ⟨method, payload, {}⟩
      ⟨o, store, false⟩
    rcases hend with ⟨_, err, hrun⟩ | ⟨bytes, failure, hrun, _⟩
    all_goals
      rw [hrun] at hreads
      exact hreads.slots

/-! ## A meter that is read -/

open Operation (counting)

/-- The first second that no time with four digits for the year can name. -/
def afterAll : Instant := { (default : Instant) with seconds := 253402300800 }

/-- The service of meters. Resetting one is refused, and reading one answers with a time. -/
def meterService : Service :=
  ⟨⟨"Meter", [.of "count" 0 .int none],
    [counting "reset" .instant (.fail (.ofMessage "refused")),
      counting "read" .instant (.done (.instant afterAll))], []⟩, by decide⟩

def meterCatalog : Catalog := ⟨Table.empty.insert "Meter" meterService⟩

def meterId : Identity := ⟨"Meter", 0, 1⟩

def withMeter : Session := (empty 0).putBack (.loaded meterId meterService.schema)

theorem failed_call_leaves_no_trace_reset :
    ∃ e s' m', invokeLocal meterCatalog meterId "reset" .null (withMeter, Memory.empty) =
        (.fail e, (s', m')) ∧
      s' = withMeter ∧ LawfulStore.slots m' = LawfulStore.slots Memory.empty := by
  have hfail : ∃ e s' m', invokeLocal meterCatalog meterId "reset" .null
      (withMeter, Memory.empty) = (.fail e, (s', m')) := ⟨_, _, _, rfl⟩
  obtain ⟨e, s', m', h⟩ := hfail
  obtain ⟨hsession, hstore⟩ := failed_call_leaves_no_trace h
  have hreset : ∀ op, meterCatalog.operation "Meter" "reset" = .ok op →
      op = counting "reset" .instant (.fail (.ofMessage "refused")) :=
    fun op hop => Except.ok.inj (hop.symm.trans rfl)
  refine ⟨e, s', m', h, hsession fun op v hreturned => ?_, hstore fun op hop => ?_⟩
  · -- the body refuses, so it has returned nothing
    obtain ⟨hop, payload, args, o, scene, _, _, ho, hrun⟩ := hreturned
    obtain rfl := hreset op hop
    obtain rfl : .loaded meterId meterService.schema = o := Option.some.inj ho
    cases hrun
  · exact hreset op hop ▸ Operation.neverFlushes_counting .fail

/-- The method has ended, and its result was encoded; but nobody can read it, and the call fails
after the session has taken the copy. -/
theorem failed_call_leaves_trace :
    ∃ e s' m', invokeLocal meterCatalog meterId "read" .null (withMeter, Memory.empty) =
        (.fail e, (s', m')) ∧ withMeter.isDirty = false ∧ s'.isDirty = true := by
  have hcall : ∃ s' m', invokeLocal meterCatalog meterId "read" .null (withMeter, Memory.empty) =
      (.ofExcept ((Shape.instant.decode "return" (Json.str afterAll.text).text.toUTF8).mapError
        .codec), (s', m')) ∧ s'.isDirty = true := ⟨_, _, rfl, rfl⟩
  obtain ⟨s', m', hcall, hdirty⟩ := hcall
  have htext : Instant.ofText? afterAll.text = none := by decide +kernel
  have hread : Shape.instant.read "return" (.str afterAll.text) =
      .error (.of "return" "RFC 3339 datetime" (Text.quoted afterAll.text)) := by
    change Shape.instantOfText "return" afterAll.text = _
    unfold Shape.instantOfText
    rw [htext]
  rw [Shape.decode_text (.str _) (Nat.zero_le _), hread] at hcall
  exact ⟨_, s', m', hcall, rfl, hdirty⟩

end Session
end ObjectSpace
