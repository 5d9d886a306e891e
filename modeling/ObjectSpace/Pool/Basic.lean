import ObjectSpace.Session.Basic

/-!
# Session pools

A pool hands out one session for every owner and partition. An owner may lock its session for longer,
or keep a handle of it, and goes away at some time; a crash under the lock poisons the session.
-/

namespace ObjectSpace

/-- Whose session it is, and of which partition. Owners are told apart by numbers. -/
structure Affinity where
  owner : Nat
  partition : UInt32
  deriving DecidableEq

namespace Affinity

def compare : Affinity → Affinity → Ordering :=
  compareLex (compareOn owner) (compareOn partition)

instance : Ord Affinity := ⟨compare⟩

instance : Std.TransOrd Affinity :=
  inferInstanceAs (Std.TransCmp (compareLex _ _))

theorem eq_of_compare {a b : Affinity} (h : compare a b = .eq) : a = b := by
  obtain ⟨h₁, h₂⟩ := Ordering.then_eq_eq.1 h
  have ho : a.owner = b.owner := Std.LawfulEqOrd.eq_of_compare h₁
  have hp : a.partition = b.partition := Std.LawfulEqOrd.eq_of_compare h₂
  cases a; cases b; simp_all

instance : Std.LawfulEqOrd Affinity where
  compare_self := Std.ReflOrd.compare_self
  eq_of_compare := eq_of_compare

end Affinity

inductive Lock where
  | free
  /-- Locked by the owner. -/
  | held
  /-- The work under the lock crashed. -/
  | poisoned
  deriving DecidableEq

structure Cell where
  /-- Tells the session from earlier ones of the same affinity. -/
  ticket : Nat
  session : Session
  lock : Lock
  /-- How many handles there are outside of the pool. -/
  handles : Nat

/-- A session as handed out. -/
structure Handle where
  affinity : Affinity
  ticket : Nat
  deriving DecidableEq

structure Pool where
  cells : Table Affinity Cell
  /-- The ticket of the next session. -/
  next : Nat
  /-- The owners that have gone. -/
  ended : KeySet Nat
  /-- How often the background committer was restarted, while there is one. -/
  committer : Option Nat

namespace Pool

variable {σ : Type}

def empty : Pool := ⟨{}, 0, {}, none⟩

instance : Inhabited Pool := ⟨empty⟩

def size (p : Pool) : Nat := p.cells.size

def cell? (p : Pool) (a : Affinity) : Option Cell := p.cells.get? a

def putCell (p : Pool) (a : Affinity) (c : Cell) : Pool := { p with cells := p.cells.insert a c }

def newCell (p : Pool) (a : Affinity) : Cell := ⟨p.next, .empty a.partition, .free, 0⟩

/-- The session of this affinity, a new one if there is none. -/
def enter (p : Pool) (a : Affinity) : Cell × Pool :=
  match p.cell? a with
  | some c => (c, p)
  | none =>
    let c := p.newCell a
    (c, { p.putCell a c with next := p.next + 1 })

/-- The handle of a session, which need not be kept. -/
def handle (p : Pool) (a : Affinity) : Handle × Pool :=
  let (c, p) := p.enter a
  (⟨a, c.ticket⟩, p)

/-- A handle that is kept. -/
def hold (p : Pool) (a : Affinity) : Handle × Pool :=
  let (c, p) := p.enter a
  (⟨a, c.ticket⟩, p.putCell a { c with handles := c.handles + 1 })

/-- Gives up a handle that was kept. -/
def release (p : Pool) (h : Handle) : Pool :=
  match p.cell? h.affinity with
  | some c =>
    if c.ticket = h.ticket then p.putCell h.affinity { c with handles := c.handles - 1 } else p
  | none => p

def setLock (p : Pool) (a : Affinity) (l : Lock) : Pool :=
  let (c, p) := p.enter a
  p.putCell a { c with lock := l }

/-- Does something while the owner keeps the session locked. -/
def holding (a : Affinity) (r : Run (Pool × σ) SessionError α) : Run (Pool × σ) SessionError α :=
  fun (p, store) =>
    let (c, p) := p.enter a
    match c.lock with
    | .poisoned => (.fail .poisoned, (p, store))
    | _ =>
      match r (p.setLock a .held, store) with
      | (.crash, (p, store)) => (.crash, (p.setLock a .poisoned, store))
      | (o, (p, store)) => (o, (p.setLock a .free, store))

/-- The owner is not coming back. -/
def endOwner (p : Pool) (owner : Nat) : Pool := { p with ended := p.ended.add owner }

/-- Works on a session as its owner. -/
def onSession (a : Affinity) (r : Run (Session × σ) SessionError α) :
    Run (Pool × σ) SessionError α := fun (p, store) =>
  let (c, p) := p.enter a
  match c.lock with
  | .poisoned => (.fail .poisoned, (p, store))
  | _ =>
    match r (c.session, store) with
    | (.crash, (s, store)) => (.crash, (p.putCell a { c with session := s, lock := .poisoned }, store))
    | (o, (s, store)) => (o, (p.putCell a { c with session := s }, store))

end Pool
end ObjectSpace
