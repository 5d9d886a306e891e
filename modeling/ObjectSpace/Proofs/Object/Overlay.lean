import ObjectSpace.Proofs.Object.Batch
import ObjectSpace.Proofs.Object.Operation

/-!
# Pending values over stored slots

What a resident object is for those who use it: the values that are still to be written, over the
slots that are stored. An operation looks at nothing else, except for what the store says to it.
-/

namespace ObjectSpace

/-- What the store says when it is asked for a slot, and when it is given a batch. -/
structure Verdict where
  get : UInt32 → Outcome StoreError Unit
  put : Slots → Outcome StoreError Unit

namespace Verdict

/-- How a request ends, whatever it answers. -/
def ofOutcome {α : Type} : Outcome StoreError α → Outcome StoreError Unit
  | .ok _ => .ok ()
  | .fail e => .fail e
  | .crash => .crash

section

variable {σ : Type} [Store σ] (id : Identity) (s : σ)

/-- What the store says in this state. -/
def asked : Verdict where
  get i := ofOutcome (Store.get id i s).1
  put batch := (Store.put id batch s).1

/-- The same, but no slot is asked for: a value that is in memory needs no store. -/
def unasked : Verdict := { asked id s with get := fun _ => .ok () }

def Honest (v : Verdict) : Prop := v = asked id s ∨ v = unasked id s

end

/-- Goes on if the store agrees. -/
def run {σ : Type} (o : Outcome StoreError Unit) : Run σ StateError Unit :=
  .ofOutcome (o.mapError .store)

end Verdict

structure Overlay where
  pending : Table UInt32 Value
  stored : Slots

namespace Overlay

/-- The value of the slot of a field, or the declared default. -/
def storedValue (w : Overlay) (f : Field) : Except StateError Value :=
  match w.stored.get? f.index with
  | some payload => (f.shape.decode f.name payload).mapError .codec
  | none => .ok f.default

section

variable (c : Class) (id : Identity)

def field (name : String) : Except StateError Field :=
  match c.field? name with
  | some f => .ok f
  | none => .error (.unknownField id.classId name)

def accessed (accessor : String) (access : Access) : Except StateError Field :=
  match c.accessor? accessor with
  | none => .error (.unknownAccessor id.classId accessor)
  | some a =>
    if a.access = access then field c id a.field else .error (.wrongAccess accessor access)

end

/-- The pending value, or else the stored one. -/
def get (verdict : Verdict) (f : Field) : Run Overlay StateError Resident.Answer := do
  let w ← Run.getState
  match w.pending.get? f.index with
  | some v => return .value v
  | none =>
    Verdict.run (verdict.get f.index)
    return .value (← .ofExcept (w.storedValue f))

def set (f : Field) (v : Value) : Run Overlay StateError Resident.Answer := do
  let v ← .ofExcept ((f.shape.coerce f.name v).mapError .mismatch)
  Run.modifyState fun w => { w with pending := w.pending.insert f.index v }
  return .value v

def invalidate (f : Field) : Run Overlay StateError Resident.Answer := do
  Run.modifyState fun w => { w with pending := w.pending.erase f.index }
  return .done

/-- Moves all pending values into the store, or none. -/
def flush (c : Class) (verdict : Verdict) : Run Overlay StateError Resident.Answer := do
  let w ← Run.getState
  if w.pending.isEmpty then return .written 0
  else
    let batch ← .ofExcept (w.pending.entries.mapM (Resident.encodeField c))
    let slots := Table.ofList batch
    Verdict.run (verdict.put slots)
    Run.setState ⟨{}, w.stored.merge slots⟩
    return .written batch.length

def perform (c : Class) (id : Identity) (verdict : Verdict) :
    Resident.Operation → Run Overlay StateError Resident.Answer
  | .get name => do get verdict (← .ofExcept (field c id name))
  | .set name v => do set (← .ofExcept (field c id name)) v
  | .read accessor => do get verdict (← .ofExcept (accessed c id accessor .read))
  | .write accessor v => do set (← .ofExcept (accessed c id accessor .write)) v
  | .invalidate name => do invalidate (← .ofExcept (field c id name))
  | .flush => flush c verdict

/-! ## Failures -/

section

variable {w : Overlay} {verdict : Verdict}

theorem ofExcept_bind_apply {α : Type} (x : Except StateError α)
    (r : α → Run Overlay StateError Resident.Answer) :
    (Run.ofExcept x >>= r) w = match x with
      | .ok a => r a w
      | .error e => (.fail e, w) := by
  cases x <;> rfl

theorem run_bind_apply (o : Outcome StoreError Unit)
    (r : Unit → Run Overlay StateError Resident.Answer) :
    (Verdict.run o >>= r) w = match o with
      | .ok _ => r () w
      | .fail e => (.fail (.store e), w)
      | .crash => (.crash, w) := by
  cases o <;> rfl

theorem get_apply (f : Field) : get verdict f w = match w.pending.get? f.index with
    | some v => (.ok (.value v), w)
    | none => match verdict.get f.index with
      | .ok _ => match w.storedValue f with
        | .ok v => (.ok (.value v), w)
        | .error e => (.fail e, w)
      | .fail e => (.fail (.store e), w)
      | .crash => (.crash, w) := by
  unfold get
  rw [Run.bind_apply, Run.getState]
  dsimp only
  cases w.pending.get? f.index with
  | some v => rfl
  | none =>
    change (Verdict.run (verdict.get f.index) >>= fun _ => Run.ofExcept (w.storedValue f) >>=
      fun v => pure (Resident.Answer.value v)) w = _
    rw [run_bind_apply]
    cases verdict.get f.index with
    | ok =>
      dsimp only
      rw [ofExcept_bind_apply]
      cases w.storedValue f <;> rfl
    | fail e => rfl
    | crash => rfl

theorem set_apply (f : Field) (v : Value) : set f v w =
    match (f.shape.coerce f.name v).mapError StateError.mismatch with
      | .ok v => (.ok (.value v), { w with pending := w.pending.insert f.index v })
      | .error e => (.fail e, w) := by
  unfold set
  rw [ofExcept_bind_apply]
  cases (f.shape.coerce f.name v).mapError StateError.mismatch <;> rfl

theorem flush_apply (c : Class) : flush c verdict w =
    if w.pending.isEmpty then (.ok (.written 0), w)
    else match w.pending.entries.mapM (Resident.encodeField c) with
      | .error e => (.fail e, w)
      | .ok batch => match verdict.put (Table.ofList batch) with
        | .ok _ => (.ok (.written batch.length), ⟨{}, w.stored.merge (Table.ofList batch)⟩)
        | .fail e => (.fail (.store e), w)
        | .crash => (.crash, w) := by
  unfold flush
  rw [Run.bind_apply, Run.getState]
  dsimp only
  by_cases h : w.pending.isEmpty = true
  · rw [if_pos h, if_pos h]
    rfl
  · rw [if_neg h, if_neg h, ofExcept_bind_apply]
    cases w.pending.entries.mapM (Resident.encodeField c) with
    | error e => rfl
    | ok batch =>
      dsimp only
      rw [run_bind_apply]
      cases verdict.put (Table.ofList batch) <;> rfl

end

/-- What does not succeed changes neither the stored slots nor the pending values. -/
def Undone (r : Run Overlay StateError Resident.Answer) : Prop :=
  ∀ w, (∀ a, (r w).1 ≠ .ok a) → (r w).2 = w

theorem undone_ofExcept_bind {α : Type} (x : Except StateError α)
    {r : α → Run Overlay StateError Resident.Answer} (h : ∀ a, Undone (r a)) :
    Undone (Run.ofExcept x >>= r) := by
  intro w
  rw [ofExcept_bind_apply]
  cases x with
  | ok a => exact h a w
  | error e => exact fun _ => rfl

theorem undone_get (verdict : Verdict) (f : Field) : Undone (get verdict f) := by
  intro w _
  rw [get_apply]
  split
  · rfl
  · split
    · split <;> rfl
    · rfl
    · rfl

theorem undone_set (f : Field) (v : Value) : Undone (set f v) := by
  intro w
  rw [set_apply]
  split
  · intro h
    exact absurd rfl (h _)
  · intro _
    rfl

theorem undone_flush (c : Class) (verdict : Verdict) : Undone (flush c verdict) := by
  intro w
  rw [flush_apply]
  split
  · intro _
    rfl
  · split
    · intro _
      rfl
    · split
      · intro h
        exact absurd rfl (h _)
      · intro _
        rfl
      · intro _
        rfl

theorem undone_perform (c : Class) (id : Identity) (verdict : Verdict)
    (operation : Resident.Operation) : Undone (perform c id verdict operation) := by
  cases operation with
  | get name => exact undone_ofExcept_bind _ (undone_get verdict)
  | set name v => exact undone_ofExcept_bind _ fun f => undone_set f v
  | read accessor => exact undone_ofExcept_bind _ (undone_get verdict)
  | write accessor v => exact undone_ofExcept_bind _ fun f => undone_set f v
  | invalidate name =>
    apply undone_ofExcept_bind _
    intro f w h
    exact absurd rfl (h .done)
  | flush => exact undone_flush c verdict

end Overlay

/-! ## Runs -/

/-- An operation, and what others do to the store before it. -/
structure Turn (σ : Type) where
  others : σ → σ
  operation : Resident.Operation

/-- An operation of a run: the store that it met, its end, and the state that it left. -/
structure Seen (σ : Type) where
  before : σ
  outcome : Outcome StateError Resident.Answer
  after : Resident × σ

def Resident.trace {σ : Type} [Store σ] : List (Turn σ) → Resident × σ → List (Seen σ)
  | [], _ => []
  | t :: ts, (o, s) =>
    let (outcome, after) := perform t.operation (o, t.others s)
    ⟨t.others s, outcome, after⟩ :: trace ts after

/-- The ends of the operations, and the state behind each. -/
def Overlay.trace (c : Class) (id : Identity) : List (Resident.Operation × Verdict) → Overlay →
    List (Outcome StateError Resident.Answer × Overlay)
  | [], _ => []
  | (operation, verdict) :: rest, w =>
    let (outcome, w') := perform c id verdict operation w
    (outcome, w') :: trace c id rest w'

end ObjectSpace
