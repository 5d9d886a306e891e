import ObjectSpace.Proofs.Dispatch.Handling
import ObjectSpace.Proofs.Object.Alike
import ObjectSpace.Proofs.Reference.Target
import ObjectSpace.Proofs.Service.Call
import ObjectSpace.Proofs.Session.Call

/-!
# Calls from here and from afar

A method that is called on an object in the session works on what the session has in memory; called
from afar it works on an object that was just loaded. Both end the same for the caller, and leave
the same bytes in the store once the session is committed.
-/

namespace ObjectSpace

open Success

variable {σ : Type} [Store σ] [SteadyStore σ]

/-- The body goes by what the fields of its object hold and is not held up, and the values that it
leaves to be written can be encoded. -/
structure Operation.Orderly (op : Operation) (registry : Registry) (e : Envelope)
    (scene : Scene σ) : Prop where
  fields : op.NeverPeeks
  prompt : (op.tryInvoke registry e scene).2.late = false
  encodes : ∀ bytes after, op.tryInvoke registry e scene = (.ok bytes, after) →
    ∃ b, after.object.batch = .ok b

namespace Session

/-- The session has the object in memory with nothing to write and as the store has it, and is not
about to delete it. -/
structure Mirrors (s : Session) (store : σ) (id : Identity) (cls : Class) (o : Resident) :
    Prop where
  keyed : s.Keyed
  object : s.object? id = some o
  schema : o.schema = cls
  clean : o.isDirty = false
  cached : ∀ f ∈ cls.fields, ∀ v, o.state.cache.get? f.index = some v →
    Resident.stored f id store = .ok v
  kept : s.deletions.contains id = false

/-- Both calls give the same value or failures with the same report. A body that crashes takes the
caller with it here, and from afar it is reported. -/
inductive SameEnd : Outcome SessionError Value → Outcome SessionError Value → Prop
  | ok (v : Value) : SameEnd (.ok v) (.ok v)
  | fail {e e' : SessionError} (h : e.report = e'.report) : SameEnd (.fail e) (.fail e')
  | crash {e : SessionError} (text : String) (h : e.report = (SessionError.join text).report) :
    SameEnd .crash (.fail e)

variable {s : Session} {store : σ} {id : Identity} {cls : Class} {o : Resident}

/-- An object that mirrors the store is like one that was just loaded. -/
theorem Mirrors.alike (h : s.Mirrors store id cls o) (hcalm : IndependentStore.calm store) :
    Resident.Alike (Verdict.asked id store) (.loaded id cls, store) (o, store) where
  identity := h.keyed id o h.object
  schema := h.schema
  dirty := by
    have hclean := h.clean
    rw [Resident.isDirty, FieldState.isDirty, Bool.not_eq_false'] at hclean
    exact Table.ext_entries (List.isEmpty_iff.1 hclean)
  staged i hi := by cases hi
  answers f hf := by
    have hid : o.identity = id := h.keyed id o h.object
    have hloaded : Resident.shown f (.loaded id cls, store) = Resident.stored f id store :=
      Resident.shown_eq f _ store
    rw [hloaded, Resident.shown_eq, hid]
    cases hv : o.state.cache.get? f.index with
    | some v => exact (h.cached f hf v hv).symm
    | none => rfl
  slots := rfl
  stores := ⟨rfl, rfl⟩
  calm := ⟨hcalm, hcalm⟩

theorem Mirrors.slots_commit (h : s.Mirrors store id cls o) {store' : σ}
    (hcalm : IndependentStore.calm store') (htakes : Store.Takes id store') :
    LawfulStore.slots (commit (s, store')).2.2 id = LawfulStore.slots store' id := by
  rw [slots_commit_of_batch h.keyed hcalm h.kept h.object htakes
    (Resident.batch_of_clean h.clean), Table.merge_of_isEmpty rfl]

/-- The objects that a body leaves, which began with one that was just loaded and with one that
mirrors the store. -/
structure Twins (store : σ) (id : Identity) (away here : Scene σ) : Prop where
  identity : away.object.identity = id
  alike : Resident.Alike (Verdict.asked id store) (away.object, away.store)
    (here.object, here.store)

/-- The body does to the object in the session what it does to one that was just loaded. -/
theorem Mirrors.exists_run (h : s.Mirrors store id cls o) (hcalm : IndependentStore.calm store)
    {registry : Registry} {op : Operation} (hop : op.NeverPeeks) {e : Envelope}
    {out : Outcome InvokeError ByteArray} {away : Scene σ}
    (hrun : op.tryInvoke registry e ⟨.loaded id cls, store, false⟩ = (out, away)) :
    ∃ here, op.tryInvoke registry e ⟨o, store, false⟩ = (out, here) ∧ Twins store id away here := by
  have hchanges := (op.changes registry e ⟨.loaded id cls, store, false⟩).identity
  obtain ⟨hout, halike⟩ := hop.blind registry e (x := ⟨.loaded id cls, store, false⟩)
    (y := ⟨o, store, false⟩) ⟨h.alike hcalm, rfl⟩
  rw [hrun] at hchanges hout halike
  exact ⟨(op.tryInvoke registry e ⟨o, store, false⟩).2, Prod.ext hout rfl, hchanges,
    halike.objects⟩

namespace Twins

variable {away here : Scene σ}

theorem slots (h : Twins store id away here) :
    LawfulStore.slots here.store id = LawfulStore.slots away.store id := by
  have hslots := h.alike.slots
  dsimp only at hslots
  rwa [h.identity] at hslots

theorem takes (h : Twins store id away here) (htakes : Store.Takes id store) :
    Store.Takes id away.store ∧ Store.Takes id here.store := by
  have hstores := h.alike.stores
  dsimp only at hstores
  rw [h.identity] at hstores
  exact ⟨htakes.of_asked hstores.1, htakes.of_asked hstores.2⟩

/-- What a commit of the session writes is what the worker's session writes. -/
theorem slots_commit (h : Twins store id away here) (hs : s.Mirrors store id cls o)
    (htakes : Store.Takes id store) {b : Slots} (hb : away.object.batch = .ok b) :
    ∃ n, (Resident.flush (away.object, away.store)).1 = .ok n ∧
      LawfulStore.slots (commit (s.putBack here.object, here.store)).2.2 id =
        LawfulStore.slots (Resident.flush (away.object, away.store)).2.2 id := by
  obtain ⟨htakesAway, htakesHere⟩ := h.takes htakes
  have hidentity : here.object.identity = id := h.alike.identity.trans h.identity
  have hput : (Store.put away.object.identity b away.store).1 = .ok () := by
    rw [h.identity]
    exact htakesAway b
  obtain ⟨n, hflush⟩ := Resident.flush_ok hb hput
  obtain ⟨b', hb', hflushed⟩ := Resident.exists_batch_of_flush hflush
  obtain rfl : b = b' := Except.ok.inj (hb.symm.trans hb')
  have hobject : (s.putBack here.object).object? id = some here.object := by
    rw [object?_putBack, if_pos hidentity.symm]
  refine ⟨n, hflush, ?_⟩
  rw [slots_commit_of_batch (hs.keyed.putBack _) h.alike.calm.2 hs.kept hobject htakesHere
    (h.alike.batch.trans hb), hflushed id, if_pos h.identity.symm, h.slots]

end Twins

section

variable {c : Catalog} {conn : Connection σ} {t : Target} {method : String} {arg : Value}

omit [SteadyStore σ] in
/-- Where a call goes. -/
theorem call_apply (ht : t.normalize = .ok id) :
    call c conn t method arg (s, store) =
      if s.isResident id then invokeLocal c id method arg (s, store)
      else match c.registry.materialize id id.classId with
        | .error e => (.fail (.proxy e), (s, store))
        | .ok p =>
          ((p.call conn method arg {} store).1.mapError .proxy,
            (s, (p.call conn method arg {} store).2)) := by
  unfold call
  rw [Run.bind_apply, ht]
  dsimp only [Except.mapError, Run.ofExcept, Run.ofOutcome, Outcome.ofExcept]
  rw [Run.bind_apply, Run.getState]
  dsimp only
  cases s.isResident id with
  | true => rfl
  | false => cases c.registry.materialize id id.classId <;> rfl

omit [SteadyStore σ] in
/-- A call of a resident object works on the object. -/
theorem call_here {op : Operation} {payload : ByteArray} (ht : t.normalize = .ok id)
    (ho : s.object? id = some o) (hop : c.operation id.classId method = .ok op)
    (hpayload : op.method.encodeCall arg = .ok payload) :
    call c conn t method arg (s, store) =
      match op.tryInvoke c.registry ⟨method, payload, {}⟩ ⟨o, store, false⟩ with
      | (.ok bytes, scene) =>
        (.ofExcept ((op.method.returns.decode "return" bytes).mapError .codec),
          (s.putBack scene.object, scene.store))
      | (.fail err, scene) => (.fail (.invoke err), (s, scene.store))
      | (.crash, scene) => (.crash, (s, scene.store)) := by
  have hs : s.isResident id = true := Table.contains_iff.2 ⟨o, ho⟩
  rw [call_apply ht, if_pos hs, invokeLocal_apply, hop]
  dsimp only
  rw [hpayload]
  dsimp only
  rw [invokeCopy_of_object ho]
  rcases op.tryInvoke c.registry ⟨method, payload, {}⟩ ⟨o, store, false⟩ with ⟨out, scene⟩
  cases out <;> rfl

omit [SteadyStore σ] in
/-- A call whose argument cannot be encoded does not come to the object. -/
theorem call_here_refused {op : Operation} {e : CodecError} (ht : t.normalize = .ok id)
    (hs : s.isResident id = true) (hop : c.operation id.classId method = .ok op)
    (he : op.method.encodeCall arg = .error e) :
    call c conn t method arg (s, store) = (.fail (.proxy (.codec e)), (s, store)) := by
  rw [call_apply ht, if_pos hs, invokeLocal_apply, hop]
  dsimp only
  rw [he]

omit [SteadyStore σ] in
theorem call_of_absent (ht : t.normalize = .ok id) (hs : s.isResident id = false)
    (hc : c.registry.find id.classId = .ok cls) :
    call c conn t method arg (s, store) =
      ((Proxy.call conn ⟨id, cls⟩ method arg {} store).1.mapError .proxy,
        (s, (Proxy.call conn ⟨id, cls⟩ method arg {} store).2)) := by
  rw [call_apply ht, if_neg (Bool.eq_false_iff.1 hs), Registry.materialize_eq hc]

omit [SteadyStore σ] in
theorem call_away_refused {m : Method} {e : CodecError} (ht : t.normalize = .ok id)
    (hs : s.isResident id = false) (hc : c.registry.find id.classId = .ok cls)
    (hm : cls.method? method = some m) (he : m.encodeCall arg = .error e) :
    call c conn t method arg (s, store) = (.fail (.proxy (.codec e)), (s, store)) := by
  rw [call_of_absent ht hs hc, Proxy.call_apply, Proxy.signature_eq hm]
  dsimp only
  rw [he]
  rfl

end

/-! ## Here and away -/

section

variable {h : Handler} {conn : Connection σ} {t : Target} {method : String} {m : Method}
  {arg : Value} {a b : Session} {payload : ByteArray} {store' : σ}

theorem validate_of_normalize {t : Target} (ht : t.normalize = .ok id) : id.validate = .ok () :=
  Identity.validate_eq_ok.2 (Target.normalize_eq_ok.1 ht).2

section

variable (hconn : conn.transport = (Loopback.unbound.bind h).2.transport)
  (ht : t.normalize = .ok id) (hc : h.catalog.registry.find id.classId = .ok cls)
  (hm : cls.method? method = some m) (hb : b.isResident id = false)
  (hpayload : m.encodeCall arg = .ok payload)

include hconn ht hc hm hb hpayload

omit [SteadyStore σ] in
theorem call_away_ok {bytes : ByteArray}
    (hserved : h.tryHandle id ⟨method, payload, {}⟩ store = (.ok bytes, store')) :
    call h.catalog conn t method arg (b, store) =
      (.ofExcept ((m.returns.decode "return" bytes).mapError fun e => .proxy (.codec e)),
        (b, store')) := by
  rw [call_of_absent ht hb hc, Proxy.call_apply, Proxy.signature_eq hm]
  dsimp only
  rw [hpayload]
  dsimp only
  rw [Proxy.invokeRaw_ok hconn hserved]
  dsimp only
  cases m.returns.decode "return" bytes <;> rfl

omit [SteadyStore σ] in
theorem call_away_fail {err : SessionError} (hstatus : err.report.status ≠ .okay)
    (hserved : h.tryHandle id ⟨method, payload, {}⟩ store = (.fail err, store')) :
    call h.catalog conn t method arg (b, store) =
      (.fail (.proxy (.remote err.report)), (b, store')) := by
  rw [call_of_absent ht hb hc, Proxy.call_apply, Proxy.signature_eq hm]
  dsimp only
  rw [hpayload]
  dsimp only
  rw [Proxy.invokeRaw_fail hconn hstatus hserved]
  rfl

end

/-- A call ends the same for the caller whether it finds the object in its session or goes through
the loopback to a worker, and the store ends with the same slots of the object. -/
theorem call_ends_alike (hconn : conn.transport = (Loopback.unbound.bind h).2.transport)
    (ht : t.normalize = .ok id) (hc : h.catalog.registry.find id.classId = .ok cls)
    (hm : cls.method? method = some m) (ha : a.Mirrors store id cls o)
    (hb : b.isResident id = false) (hcalm : IndependentStore.calm store)
    (htakes : Store.Takes id store)
    (hbody : ∀ op payload, h.catalog.operation id.classId method = .ok op →
      m.encodeCall arg = .ok payload →
        op.Orderly h.catalog.registry ⟨method, payload, {}⟩ ⟨.loaded id cls, store, false⟩) :
    let here := call h.catalog conn t method arg (a, store)
    let away := call h.catalog conn t method arg (b, store)
    SameEnd here.1 away.1 ∧
      LawfulStore.slots (commit here.2).2.2 id = LawfulStore.slots away.2.2 id := by
  intro here away
  obtain ⟨op, hop, rfl⟩ := Catalog.exists_operation hc hm
  cases hpayload : op.method.encodeCall arg with
  | error e =>
    have hhere : here = _ :=
      call_here_refused ht (Table.contains_iff.2 ⟨o, ha.object⟩) hop hpayload
    have haway : away = _ := call_away_refused ht hb hc hm hpayload
    rw [hhere, haway]
    exact ⟨.fail rfl, ha.slots_commit hcalm htakes⟩
  | ok payload =>
    obtain ⟨hfields, hprompt, hencodes⟩ := hbody op payload hop hpayload
    rcases hrun : op.tryInvoke h.catalog.registry ⟨method, payload, {}⟩
      ⟨.loaded id cls, store, false⟩ with ⟨out, scene⟩
    rw [hrun] at hprompt
    obtain ⟨scene', hrun', htwins⟩ := ha.exists_run hcalm hfields hrun
    have hid := validate_of_normalize ht
    have hhere : here = _ := call_here ht ha.object hop hpayload
    rw [hrun'] at hhere
    -- what was flushed before the body failed is in both stores
    have hfailed : LawfulStore.slots (commit (a, scene'.store)).2.2 id =
        LawfulStore.slots scene.store id :=
      (ha.slots_commit htwins.alike.calm.2 (htwins.takes htakes).2).trans htwins.slots
    cases out with
    | fail err =>
      have hstatus : (SessionError.invoke err).report.status ≠ .okay :=
        Category.status_ne_okay err.category
      have haway : away = _ := call_away_fail hconn ht hc hm hb hpayload hstatus
        (Handler.tryHandle_fail hid hc hop hprompt hrun)
      rw [hhere, haway]
      exact ⟨.fail rfl, hfailed⟩
    | crash =>
      have hstatus : (SessionError.join h.crashText).report.status ≠ .okay :=
        Category.status_ne_okay .session
      have haway : away = _ := call_away_fail hconn ht hc hm hb hpayload hstatus
        (Handler.tryHandle_crash hid hc hop hprompt hrun)
      rw [hhere, haway]
      exact ⟨.crash h.crashText rfl, hfailed⟩
    | ok bytes =>
      obtain ⟨batch, hbatch⟩ := hencodes bytes scene hrun
      obtain ⟨n, hflush, hwritten⟩ := htwins.slots_commit ha htakes hbatch
      have haway : away = _ := call_away_ok hconn ht hc hm hb hpayload
        (Handler.tryHandle_ok hid hc hop hprompt hrun hflush)
      rw [hhere, haway]
      refine ⟨?_, hwritten⟩
      dsimp only
      cases op.method.returns.decode "return" bytes with
      | ok v => exact .ok v
      | error e => exact .fail rfl

end

/-! ## A gauge that is filled -/

open Operation (counting)

/-- A method that tells whether the count of its object is in memory. -/
def peeking : Operation :=
  ⟨⟨"peek", .noArguments, [], .bool, none⟩, fun _ _ => do
    return .bool (← Action.ask (.phase "count")).isCached⟩

/-- The service of gauges. One method fills a gauge, one breaks, and one peeks. -/
def gaugeService : Service :=
  ⟨⟨"Gauge", [.of "count" 0 .int none],
    [counting "fill" .int (.done (.int 5)), counting "break" .any .crash, peeking], []⟩, by decide⟩

def gaugeHandler : Handler := ⟨⟨Table.empty.insert "Gauge" gaugeService⟩, 1000, "crashed"⟩

def gaugeConnection : Connection Memory := ⟨(Loopback.unbound.bind gaugeHandler).2.transport, 1000⟩

def gaugeId : Identity := ⟨"Gauge", 0, 1⟩

/-- A store in which the gauge stands at seven. -/
def gaugeStore : Memory :=
  Memory.empty.write gaugeId (Table.empty.insert 0 (Json.int 7).text.toUTF8)

/-- The gauge was loaded, and its count was read. -/
def readGauge : Resident :=
  { Resident.loaded gaugeId gaugeService.schema with
    state := FieldState.unloaded.load 0 (.int 7) }

def withGauge : Session := (empty 0).putBack readGauge

theorem mirrors_gauge : withGauge.Mirrors gaugeStore gaugeId gaugeService.schema readGauge where
  keyed := (keyed_empty 0).putBack _
  object := rfl
  schema := rfl
  clean := rfl
  cached f hf v hv := by
    have hfields : gaugeService.schema.fields = [.of "count" 0 .int none] := rfl
    rw [hfields, List.mem_singleton] at hf
    subst hf
    obtain rfl : .int 7 = v := Option.some.inj hv
    change Outcome.ofExcept ((Shape.int.decode "count" (Json.int 7).text.toUTF8).mapError
      StateError.codec) = _
    rw [Shape.decode_text (.int rfl) (Nat.zero_le _)]
    rfl
  kept := rfl

/-- A method without arguments is called on the gauge out of a session. -/
def callGauge (s : Session) (method : String) :
    Outcome SessionError Value × (Session × Memory) :=
  call gaugeHandler.catalog gaugeConnection (.record gaugeId) method .null (s, gaugeStore)

/-- What a filled gauge answers is encoded, and the caller reads it. -/
theorem decode_filled : Shape.int.decode "return" (Json.int 5).text.toUTF8 = .ok (.int 5) := by
  rw [Shape.decode_text (.int rfl) (Nat.zero_le _)]
  rfl

theorem call_ends_alike_gauge :
    (callGauge withGauge "fill").1 = .ok (.int 5) ∧
      SameEnd (callGauge withGauge "fill").1 (callGauge (empty 1) "fill").1 ∧
      LawfulStore.slots (commit (callGauge withGauge "fill").2).2.2 gaugeId =
        LawfulStore.slots (callGauge (empty 1) "fill").2.2 gaugeId := by
  constructor
  · have hhere : (callGauge withGauge "fill").1 = .ofExcept
        ((Shape.int.decode "return" (Json.int 5).text.toUTF8).mapError .codec) := rfl
    rw [hhere, decode_filled]
    rfl
  refine call_ends_alike rfl rfl rfl rfl mirrors_gauge rfl trivial
    (Memory.takes_of_not_fenced rfl) fun op payload hop hpayload => ?_
  obtain rfl : op = counting "fill" .int (.done (.int 5)) := Except.ok.inj (hop.symm.trans rfl)
  obtain rfl : payload = _ := Except.ok.inj (hpayload.symm.trans rfl)
  constructor
  · intro args callMeta
    refine .perform (fun hpeeks => hpeeks) fun x => ?_
    cases x with
    | ok v => exact .done
    | error e => exact .fail
  · rfl
  · intro bytes after hrun
    cases hrun
    exact ⟨_, rfl⟩

/-- A gauge that was to be deleted is brought in again, and stays queued. -/
def withQueuedGauge : Session :=
  { (empty 0).putBack (.loaded gaugeId gaugeService.schema) with
    deletions := KeySet.add {} gaugeId }

/-- A body that crashes takes the caller with it only here, and one that peeks finds the count in
memory only here. And what is written here is deleted again by the same commit if the gauge was
brought in while it waited for its deletion. -/
theorem call_ends_differently :
    ((callGauge withGauge "break").1 = .crash ∧
      (callGauge (empty 1) "break").1 = .fail (.proxy (.remote (SessionError.join "crashed").report))) ∧
    ((callGauge withGauge "peek").1 = .ok (.bool true) ∧
      (callGauge (empty 1) "peek").1 = .ok (.bool false)) ∧
    load gaugeHandler.catalog.registry ((empty 0).delete gaugeId).2 "Gauge" gaugeId =
        .ok withQueuedGauge ∧
      LawfulStore.slots (commit (callGauge withQueuedGauge "fill").2).2.2 gaugeId = {} ∧
      LawfulStore.slots (callGauge (empty 1) "fill").2.2 gaugeId ≠ {} := by
  have hpeeked : ∀ b, Shape.bool.decode "return" (Json.bool b).text.toUTF8 = .ok (.bool b) := by
    intro b
    rw [Shape.decode_text (.bool b) (Nat.zero_le _)]
    rfl
  refine ⟨⟨rfl, ?_⟩, ⟨?_, ?_⟩, rfl, rfl, fun hempty => ?_⟩
  · have hserved : gaugeHandler.tryHandle gaugeId ⟨"break", .empty, {}⟩ gaugeStore =
        (.fail (.join "crashed"), _) := Handler.tryHandle_crash rfl rfl rfl rfl rfl
    have haway : callGauge (empty 1) "break" =
        (.fail (.proxy (.remote (SessionError.join "crashed").report)), _) :=
      call_away_fail rfl rfl rfl rfl rfl rfl (by decide) hserved
    rw [haway]
  · have hhere : (callGauge withGauge "peek").1 = .ofExcept
        ((Shape.bool.decode "return" (Json.bool true).text.toUTF8).mapError .codec) := rfl
    rw [hhere, hpeeked]
    rfl
  · have hserved : gaugeHandler.tryHandle gaugeId ⟨"peek", .empty, {}⟩ gaugeStore =
        (.ok (Json.bool false).text.toUTF8, _) :=
      Handler.tryHandle_ok rfl rfl rfl rfl rfl rfl
    have haway : callGauge (empty 1) "peek" =
        (.ofExcept ((Shape.bool.decode "return" (Json.bool false).text.toUTF8).mapError
          fun e => .proxy (.codec e)), _) :=
      call_away_ok (h := gaugeHandler) (m := peeking.method) rfl rfl rfl rfl rfl rfl hserved
    rw [haway, hpeeked]
    rfl
  · have hslot :
        ((LawfulStore.slots (callGauge (empty 1) "fill").2.2 gaugeId).get? 0).isSome = true := rfl
    rw [hempty] at hslot
    cases hslot

end Session
end ObjectSpace
