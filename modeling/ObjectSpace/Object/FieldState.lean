import ObjectSpace.Class.Basic
import ObjectSpace.Codec.Payload
import ObjectSpace.Store.Basic

/-!
# What an object has in memory

The values of an object's fields that are held in memory, by slot. A field is dirty if its value is
still to be written, and flushed if it was written since it was set.
-/

namespace ObjectSpace

inductive Phase where
  | unloaded
  | clean
  | dirty
  | flushed
  deriving DecidableEq

def Phase.isCached (p : Phase) : Bool := p != .unloaded

structure FieldState where
  cache : Table UInt32 Value
  dirty : KeySet UInt32
  flushed : KeySet UInt32

namespace FieldState

def unloaded : FieldState := ⟨{}, {}, {}⟩

/-- All fields hold their defaults, and none is to be written. -/
def ofDefaults (c : Class) : FieldState :=
  { unloaded with cache := Table.ofList (c.fields.map fun f => (f.index, f.default)) }

def phase (s : FieldState) (index : UInt32) : Phase :=
  if s.dirty.contains index then .dirty
  else if s.flushed.contains index then .flushed
  else if s.cache.contains index then .clean
  else .unloaded

/-- A value that was read from the store. -/
def load (s : FieldState) (index : UInt32) (v : Value) : FieldState :=
  { s with cache := s.cache.insert index v }

/-- A value that is to be written. -/
def stage (s : FieldState) (index : UInt32) (v : Value) : FieldState :=
  ⟨s.cache.insert index v, s.dirty.add index, s.flushed.erase index⟩

/-- Forgets a value, written or not. -/
def evict (s : FieldState) (index : UInt32) : FieldState :=
  ⟨s.cache.erase index, s.dirty.erase index, s.flushed.erase index⟩

def isDirty (s : FieldState) : Bool := !s.dirty.isEmpty

/-- One slot that was written. -/
def settle (s : FieldState) (index : UInt32) : FieldState :=
  if s.dirty.contains index then
    { s with dirty := s.dirty.erase index, flushed := s.flushed.add index }
  else s

end FieldState
end ObjectSpace
