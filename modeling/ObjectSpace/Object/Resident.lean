import ObjectSpace.Object.Error
import ObjectSpace.Object.FieldState
import ObjectSpace.Reference.Proxy

/-!
# Resident objects

An object in memory is a cache of its slots that writes back. A field is read from the store when it
is first asked for; setting a field coerces the value and keeps it until the object is flushed, and
a flush writes all dirty fields in one batch or none. What fails leaves the object as it was.
-/

namespace ObjectSpace

structure Resident where
  identity : Identity
  schema : Class
  state : FieldState

namespace Resident

variable {σ : Type}

/-- A new object; its fields hold their defaults. -/
def created (id : Identity) (c : Class) : Resident := ⟨id, c, .ofDefaults c⟩

/-- An object whose fields are read when they are asked for. -/
def loaded (id : Identity) (c : Class) : Resident := ⟨id, c, .unloaded⟩

def isDirty (o : Resident) : Bool := o.state.isDirty

def field (o : Resident) (name : String) : Except StateError Field :=
  match o.schema.field? name with
  | some f => .ok f
  | none => .error (.unknownField o.identity.classId name)

def phase (o : Resident) (name : String) : Except StateError Phase :=
  (o.field name).map fun f => o.state.phase f.index

/-- The names of the dirty fields, by slot. -/
def dirtyFields (o : Resident) : List String :=
  o.state.dirty.keys.filterMap fun i => (o.schema.fieldAt? i).map Field.name

/-! ## Fields -/

/-- The value in memory, or else that of the slot, which is kept. -/
def getField [Store σ] (f : Field) : Run (Resident × σ) StateError Value := fun (o, s) =>
  match o.state.cache.get? f.index with
  | some v => (.ok v, (o, s))
  | none =>
    match Store.get o.identity f.index s with
    | (.ok slot, s) =>
      match Proxy.slotValue f slot with
      | .ok v => (.ok v, ({ o with state := o.state.load f.index v }, s))
      | .error e => (.fail (.codec e), (o, s))
    | (.fail e, s) => (.fail (.store e), (o, s))
    | (.crash, s) => (.crash, (o, s))

def get [Store σ] (name : String) : Run (Resident × σ) StateError Value := fun (o, s) =>
  match o.field name with
  | .ok f => getField f (o, s)
  | .error e => (.fail e, (o, s))

/-- A field as a native value. -/
def getAs [Store σ] (n : Native) (name : String) :
    Run (Resident × σ) StateError n.Carrier := do
  let v ← get name
  .ofExcept ((n.ofValue v).mapError .mismatch)

/-- The value as it is stored, and the object that holds it. -/
def set (o : Resident) (name : String) (v : Value) : Except StateError (Value × Resident) := do
  let f ← o.field name
  let v ← (f.shape.coerce f.name v).mapError .mismatch
  return (v, { o with state := o.state.stage f.index v })

def invalidate (o : Resident) (name : String) : Except StateError Resident := do
  let f ← o.field name
  return { o with state := o.state.evict f.index }

/-! ## References -/

/-- The class of the objects that a field refers to. -/
def referencedClass (o : Resident) (name : String) : Except StateError String := do
  let f ← o.field name
  match f.shape.referencedClass? with
  | some c => return c
  | none => .error (.notAReference name f.shape)

def setReference (o : Resident) (name : String) (t : Target) :
    Except StateError (Identity × Resident) := do
  let c ← o.referencedClass name
  let id ← (t.normalizeFor c).mapError .mismatch
  let (_, o) ← o.set name (.ref id)
  return (id, o)

def clearReference (o : Resident) (name : String) : Except StateError Resident := do
  let _ ← o.referencedClass name
  let (_, o) ← o.set name .null
  return o

/-- The proxy that a value of a reference field stands for. -/
def proxyOf (r : Registry) (classId : String) : Value → Except StateError (Option Proxy)
  | .null => .ok none
  | v => do
    let id ← ((Target.value v).normalizeFor classId).mapError .mismatch
    return some (← (r.materialize id classId).mapError .proxy)

def reference [Store σ] (r : Registry) (name : String) :
    Run (Resident × σ) StateError (Option Proxy) := do
  let (o, _) ← Run.getState
  let c ← .ofExcept (o.referencedClass name)
  let v ← get name
  .ofExcept (proxyOf r c v)

/-- The object as seen from afar. -/
def asReference (r : Registry) (o : Resident) : Except StateError Proxy :=
  (r.materialize o.identity o.identity.classId).mapError .proxy

/-! ## Accessors -/

def accessed (o : Resident) (accessor : String) (access : Access) : Except StateError String :=
  match o.schema.accessor? accessor with
  | none => .error (.unknownAccessor o.identity.classId accessor)
  | some a => if a.access = access then .ok a.field else .error (.wrongAccess accessor access)

def read [Store σ] (accessor : String) : Run (Resident × σ) StateError Value := do
  let (o, _) ← Run.getState
  let name ← .ofExcept (o.accessed accessor .read)
  get name

def write (o : Resident) (accessor : String) (v : Value) : Except StateError (Value × Resident) := do
  let name ← o.accessed accessor .write
  o.set name v

/-! ## Flushing -/

/-- The slots that the dirty fields with these indices are written to. -/
def encodeDirty (o : Resident) : List UInt32 → Except StateError Slots
  | [] => .ok {}
  | i :: is => do
    match o.schema.fieldAt? i with
    | none => .error (.unknownField o.schema.id ("#" ++ toString i.toNat))
    | some f =>
      let payload ← (f.shape.encode f.name ((o.state.cache.get? i).getD .null)).mapError .codec
      return (← encodeDirty o is).insert i payload

def batch (o : Resident) : Except StateError Slots := o.encodeDirty o.state.dirty.keys

/-- After a batch was written. -/
def settle (o : Resident) (written : Slots) : Resident :=
  { o with state := written.keys.foldl FieldState.settle o.state }

/-- The number of slots that were written. -/
def flush [Store σ] : Run (Resident × σ) StateError Nat := fun (o, s) =>
  if o.isDirty then
    match o.batch with
    | .error e => (.fail e, (o, s))
    | .ok b =>
      match Store.put o.identity b s with
      | (.ok (), s) => (.ok b.size, (o.settle b, s))
      | (.fail e, s) => (.fail (.store e), (o, s))
      | (.crash, s) => (.crash, (o, s))
  else (.ok 0, (o, s))

def debugText (o : Resident) : String :=
  "LiveObject \x7b identity: " ++ o.identity.debugText ++ ", dirty: " ++
    Text.quotedList o.dirtyFields ++ " \x7d"

end Resident
end ObjectSpace
