import ObjectSpace.Store.Basic

/-!
# An unreliable store

A store in front of another one that refuses chosen operations on chosen objects, and that can be
told to crash in the next write. A refused operation does not reach the store behind.
-/

namespace ObjectSpace

inductive Fault where
  | unavailable
  | rejected
  | io
  deriving DecidableEq

def Fault.error (id : Identity) : Fault → StoreError
  | unavailable => .unavailable id "backend down"
  | rejected => .rejected id "quota exceeded"
  | io => .io "disk gone"

structure Faults where
  get : Table Identity Fault
  put : Table Identity Fault
  delete : Table Identity Fault
  /-- The next write crashes, whatever its object. -/
  crashesNext : Bool

def Faults.none : Faults := ⟨{}, {}, {}, false⟩

/-- The operations of a store. -/
inductive StoreOperation where
  | get
  | put
  | delete

/-- Sets the fault of an operation on an object, or removes it. -/
def Faults.set (fs : Faults) (op : StoreOperation) (id : Identity) (f? : Option Fault) : Faults :=
  let put (t : Table Identity Fault) : Table Identity Fault :=
    match f? with
    | some f => t.insert id f
    | Option.none => t.erase id
  match op with
  | .get => { fs with get := put fs.get }
  | .put => { fs with put := put fs.put }
  | .delete => { fs with delete := put fs.delete }

structure Unreliable (σ : Type) where
  faults : Faults
  behind : σ

namespace Unreliable

variable {σ : Type}

def onBehind (r : Run σ ε α) : Run (Unreliable σ) ε α := fun u =>
  let (o, s) := r u.behind
  (o, { u with behind := s })

/-- Fails with the fault that is set for the object. -/
def check (faults : Faults → Table Identity Fault) (id : Identity) :
    Run (Unreliable σ) StoreError Unit := fun u =>
  match (faults u.faults).get? id with
  | some f => (.fail (f.error id), u)
  | none => (.ok (), u)

def crashOnce : Run (Unreliable σ) StoreError Unit := fun u =>
  if u.faults.crashesNext then
    (.crash, { u with faults := { u.faults with crashesNext := false } })
  else (.ok (), u)

instance [Store σ] : Store (Unreliable σ) where
  get id index := do
    check Faults.get id
    onBehind (Store.get id index)
  put id batch := do
    crashOnce
    check Faults.put id
    onBehind (Store.put id batch)
  delete id := do
    check Faults.delete id
    onBehind (Store.delete id)

end Unreliable
end ObjectSpace
