import ObjectSpace.Store.Basic

/-!
# A store in memory

The memory store counts its reads and the batches it writes. A fenced object takes no writes.
-/

namespace ObjectSpace

structure Memory where
  objects : Table Identity Slots
  fenced : KeySet Identity
  reads : Nat
  writes : Nat

namespace Memory

def empty : Memory := ⟨{}, {}, 0, 0⟩

instance : Inhabited Memory := ⟨empty⟩

/-- The slots of an object; one that is not held has none. -/
def slots (m : Memory) (id : Identity) : Slots := (m.objects.get? id).getD {}

def get (id : Identity) (index : UInt32) : Run Memory StoreError (Option ByteArray) := fun m =>
  (.ok ((m.slots id).get? index), { m with reads := m.reads + 1 })

/-- Several slots, with one read for each; those that are empty are left out. -/
def getAll (id : Identity) (indices : List UInt32) : Run Memory StoreError Slots := fun m =>
  (.ok ((m.slots id).filter fun i _ => indices.contains i),
    { m with reads := m.reads + indices.length })

/-- Slots that are not in the batch keep what they hold. -/
def write (m : Memory) (id : Identity) (batch : Slots) : Memory :=
  { m with
    objects := m.objects.insert id ((m.slots id).merge batch)
    writes := m.writes + 1 }

def put (id : Identity) (batch : Slots) : Run Memory StoreError Unit := fun m =>
  if m.fenced.contains id then (.fail (.unavailable id "object is fenced"), m)
  else if batch.isEmpty then (.ok (), m)
  else (.ok (), m.write id batch)

def delete (id : Identity) : Run Memory StoreError Bool := fun m =>
  (.ok (m.objects.contains id), { m with objects := m.objects.erase id })

instance : Store Memory := ⟨get, put, delete⟩

def clear (m : Memory) : Memory := { m with objects := {} }
def fence (m : Memory) (id : Identity) : Memory := { m with fenced := m.fenced.add id }
def unfence (m : Memory) (id : Identity) : Memory := { m with fenced := m.fenced.erase id }

def debugText (m : Memory) : String :=
  "InMemoryStateStore \x7b object_count: " ++ toString m.objects.size ++ ", reads: " ++
    toString m.reads ++ ", writes: " ++ toString m.writes ++ " \x7d"

end Memory
end ObjectSpace
