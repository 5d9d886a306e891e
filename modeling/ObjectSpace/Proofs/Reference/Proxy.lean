import ObjectSpace.Proofs.Success
import ObjectSpace.Reference.Proxy

/-!
# Accesses from afar

An accessor of a proxy asks the store once, for one slot of the object, unless it is refused before.
-/

namespace ObjectSpace

theorem Registry.materialize_eq {r : Registry} {id : Identity} {c : Class}
    (hc : r.find id.classId = .ok c) : r.materialize id id.classId = .ok ⟨id, c⟩ := by
  rw [materialize, if_pos rfl, hc]
  rfl

theorem Registry.identity_of_materialize {r : Registry} {id : Identity} {classId : String}
    {p : Proxy} (h : r.materialize id classId = .ok p) : p.identity = id := by
  unfold materialize at h
  split at h
  · obtain ⟨c, _, rfl⟩ := Success.map_eq_ok.1 h
    rfl
  · cases h

namespace Proxy

variable {σ : Type} [Store σ]

theorem read_apply (p : Proxy) (accessor : String) (s : σ) :
    p.read accessor s = match p.accessed accessor .read with
      | .error e => (.fail e, s)
      | .ok f =>
        match Store.get p.identity f.index s with
        | (.ok slot, s) =>
          match slotValue f slot with
          | .ok v => (.ok v, s)
          | .error e => (.fail (.codec e), s)
        | (.fail e, s) => (.fail (.store e), s)
        | (.crash, s) => (.crash, s) := by
  unfold read
  rw [Run.bind_apply]
  cases p.accessed accessor .read with
  | error e => rfl
  | ok f =>
    dsimp only [Run.ofExcept, Run.ofOutcome, Outcome.ofExcept]
    rw [Run.bind_apply, Run.mapError]
    rcases Store.get p.identity f.index s with ⟨out, s'⟩
    cases out with
    | ok slot =>
      dsimp only [Outcome.mapError]
      cases slotValue f slot <;> rfl
    | fail e => rfl
    | crash => rfl

/-- A write through an accessor puts one slot, if the value can be written at all. -/
theorem write_apply (p : Proxy) (accessor : String) (v : Value) (s : σ) :
    p.write accessor v s = match p.accessed accessor .write with
      | .error e => (.fail e, s)
      | .ok f =>
        match f.shape.coerce f.name v with
        | .error m => (.fail (.mismatch m), s)
        | .ok x =>
          match f.shape.encode f.name x with
          | .error e => (.fail (.codec e), s)
          | .ok payload =>
            match Store.put p.identity (Table.empty.insert f.index payload) s with
            | (.ok (), s) => (.ok x, s)
            | (.fail e, s) => (.fail (.store e), s)
            | (.crash, s) => (.crash, s) := by
  unfold write
  rw [Run.bind_apply]
  cases p.accessed accessor .write with
  | error e => rfl
  | ok f =>
    dsimp only [Run.ofExcept, Run.ofOutcome, Outcome.ofExcept]
    rw [Run.bind_apply]
    cases f.shape.coerce f.name v with
    | error m => rfl
    | ok x =>
      dsimp only [Except.mapError, Run.ofExcept, Run.ofOutcome, Outcome.ofExcept]
      rw [Run.bind_apply]
      cases f.shape.encode f.name x with
      | error e => rfl
      | ok payload =>
        dsimp only [Except.mapError, Run.ofExcept, Run.ofOutcome, Outcome.ofExcept]
        rw [Run.bind_apply, Run.mapError]
        dsimp only
        rcases Store.put p.identity (Table.empty.insert f.index payload) s with ⟨out, s'⟩
        cases out <;> rfl

end Proxy
end ObjectSpace
