import ObjectSpace.Object.Resident
import ObjectSpace.Proofs.Run

/-!
# Operations on an object

What can be done with the fields of one object, by name or through an accessor. An operation looks
for a field first, and then works on that field alone.
-/

namespace ObjectSpace

namespace Resident

/-- What can be done with the fields of one object. -/
inductive Operation where
  | get (field : String)
  | set (field : String) (v : Value)
  | read (accessor : String)
  | write (accessor : String) (v : Value)
  | invalidate (field : String)
  | flush

inductive Answer where
  | value (v : Value)
  | done
  | written (count : Nat)

def perform {σ : Type} [Store σ] : Operation → Run (Resident × σ) StateError Answer
  | .get name => Answer.value <$> get name
  | .set name v => .update fun (o, s) => (o.set name v).map fun (v, o) => (.value v, (o, s))
  | .read accessor => Answer.value <$> read accessor
  | .write accessor v =>
    .update fun (o, s) => (o.write accessor v).map fun (v, o) => (.value v, (o, s))
  | .invalidate name => .update fun (o, s) => (o.invalidate name).map fun o => (.done, (o, s))
  | .flush => Answer.written <$> flush

variable {σ : Type} {o : Resident} {s : σ}

/-- Sets a field that was found. -/
def setField (f : Field) (v : Value) : Run (Resident × σ) StateError Answer := fun (o, s) =>
  match (f.shape.coerce f.name v).mapError StateError.mismatch with
  | .ok v => (.ok (.value v), ({ o with state := o.state.stage f.index v }, s))
  | .error e => (.fail e, (o, s))

variable [Store σ]

theorem perform_get (name : String) : perform (.get name) (o, s) =
    match o.field name with
      | .ok f => (Answer.value <$> getField f : Run (Resident × σ) StateError Answer) (o, s)
      | .error e => (.fail e, (o, s)) := by
  simp only [perform, Run.map_apply, get]
  cases o.field name <;> rfl

theorem read_apply (accessor : String) : read accessor (o, s) =
    match o.accessed accessor .read >>= o.field with
      | .ok f => getField f (o, s)
      | .error e => (.fail e, (o, s)) := by
  unfold read
  rw [Run.look_bind_apply fun t : Resident × σ => t.1.accessed accessor .read]
  dsimp only
  cases o.accessed accessor .read with
  | error e => rfl
  | ok name =>
    change get name (o, s) = match o.field name with | .ok f => _ | .error e => _
    unfold get
    rfl

theorem perform_read (accessor : String) : perform (.read accessor) (o, s) =
    match o.accessed accessor .read >>= o.field with
      | .ok f => (Answer.value <$> getField f : Run (Resident × σ) StateError Answer) (o, s)
      | .error e => (.fail e, (o, s)) := by
  simp only [perform, Run.map_apply, read_apply]
  cases o.accessed accessor .read >>= o.field <;> rfl

theorem perform_set (name : String) (v : Value) : perform (.set name v) (o, s) =
    match o.field name with
      | .ok f => setField f v (o, s)
      | .error e => (.fail e, (o, s)) := by
  unfold perform Run.update set
  dsimp only
  cases o.field name with
  | error e => rfl
  | ok f =>
    dsimp only [bind, Except.bind, setField]
    cases (f.shape.coerce f.name v).mapError StateError.mismatch <;> rfl

omit [Store σ] in
theorem write_eq (o : Resident) (accessor : String) (v : Value) : o.write accessor v =
    (o.accessed accessor .write >>= o.field) >>= fun f =>
      ((f.shape.coerce f.name v).mapError .mismatch).map fun w =>
        (w, { o with state := o.state.stage f.index w }) := by
  rw [bind_assoc]
  rfl

theorem perform_write (accessor : String) (v : Value) : perform (.write accessor v) (o, s) =
    match o.accessed accessor .write >>= o.field with
      | .ok f => setField f v (o, s)
      | .error e => (.fail e, (o, s)) := by
  unfold perform Run.update
  dsimp only
  rw [write_eq]
  cases o.accessed accessor .write >>= o.field with
  | error e => rfl
  | ok f =>
    dsimp only [bind, Except.bind, setField]
    cases (f.shape.coerce f.name v).mapError StateError.mismatch <;> rfl

theorem perform_invalidate (name : String) : perform (.invalidate name) (o, s) =
    match o.field name with
      | .ok f => (.ok .done, ({ o with state := o.state.evict f.index }, s))
      | .error e => (.fail e, (o, s)) := by
  unfold perform Run.update invalidate
  dsimp only
  cases o.field name <;> rfl

end Resident
end ObjectSpace
