import ObjectSpace.Pool.Basic

/-!
# Committing a pool

All sessions of a pool can be committed at once, by anybody or in the background. Sessions that are
locked are passed over, poisoned ones are recovered. Afterwards those are pruned that hold no work
and that nobody would miss. A pool does not say in which order it meets its sessions.
-/

namespace ObjectSpace

/-- An order in which sessions are met. -/
structure Walk where
  order : List Affinity → List Affinity
  perm : ∀ as, (order as).Perm as

/-- By owner and partition. -/
def Walk.sorted : Walk := ⟨id, fun _ => .rfl⟩

namespace Pool

variable {σ : Type}

/-- Commits the sessions of these affinities, one after the other. -/
def commitEach [Store σ] (report : CommitReport) :
    List Affinity → Run (Pool × σ) Empty CommitReport
  | [] => pure report
  | a :: as => fun (p, store) =>
    match p.cell? a with
    | none => commitEach report as (p, store)
    | some c =>
      if c.lock = .held then commitEach report as (p, store)
      else
        match Session.commit (c.session, store) with
        | (.ok r, (s, store)) =>
          commitEach (report.merge r) as (p.putCell a { c with session := s, lock := .free }, store)
        | (.crash, (s, store)) =>
          (.crash, (p.putCell a { c with session := s, lock := .poisoned }, store))

/-- Whether nothing is lost with a session, and nobody can tell that it has gone. -/
def isStale (p : Pool) (a : Affinity) (c : Cell) : Bool :=
  c.handles == 0 && c.lock == .free && !c.session.isDirty &&
    (p.ended.contains a.owner || c.session.isEmpty)

def prune (p : Pool) : Pool := { p with cells := p.cells.filter fun a c => !p.isStale a c }

def commitAll [Store σ] (w : Walk) : Run (Pool × σ) Empty CommitReport := fun (p, store) =>
  match commitEach .empty (w.order p.cells.keys) (p, store) with
  | (.ok report, (p, store)) => (.ok report, (p.prune, store))
  | (o, t) => (o, t)

/-- Commits sessions that are in the pool no longer. -/
def commitRemoved [Store σ] (report : CommitReport) : List Session → Run σ Empty CommitReport
  | [] => pure report
  | s :: ss => fun store =>
    match Session.commit (s, store) with
    | (.ok r, (_, store)) => commitRemoved (report.merge r) ss store
    | (.crash, (_, store)) => (.crash, store)

/-- Commits and discards all sessions of an owner. -/
def cleanup [Store σ] (w : Walk) (owner : Nat) : Run (Pool × σ) Empty CommitReport :=
  fun (p, store) =>
  let own := (w.order p.cells.keys).filter (·.owner == owner)
  let rest := { p with cells := p.cells.filter fun a _ => a.owner != owner }
  let (o, store) := commitRemoved .empty ((own.filterMap p.cell?).map Cell.session) store
  (o, (rest, store))

/-- Commits all sessions once more and discards them. -/
def shutdown [Store σ] (w : Walk) : Run (Pool × σ) Empty CommitReport := fun (p, store) =>
  match commitAll w ({ p with committer := none }, store) with
  | (.ok report, (p, store)) => (.ok report, ({ p with cells := {} }, store))
  | (o, t) => (o, t)

/-- Works on a session and commits it. -/
def scope [Store σ] (a : Affinity) (r : Run (Session × σ) SessionError α) :
    Run (Pool × σ) SessionError α :=
  onSession a do
    let x ← r
    let report ← Session.commit.mapError nofun
    let _ ← .ofExcept report.result
    return x

/-! ## In the background -/

/-- Why a committer cannot be started where nothing would run it. -/
def nothingRuns : String :=
  "there is no reactor running, must be called from the context of a Tokio 1.x runtime"

/-- A committer can only be started where nothing keeps it from running; a second one is not
started. -/
def startCommitter (obstacle : Option String) : Run (Pool × σ) SessionError Unit :=
  fun (p, store) =>
    match p.committer, obstacle with
    | some _, _ => (.ok (), (p, store))
    | none, none => (.ok (), ({ p with committer := some 0 }, store))
    | none, some reason => (.fail (.noRuntime reason), (p, store))

def restarts (p : Pool) : Nat := p.committer.getD 0

/-- One pass of the committer. After a crash it is restarted. -/
def backgroundPass [Store σ] (w : Walk) : Run (Pool × σ) Empty Unit := fun (p, store) =>
  match p.committer with
  | none => (.ok (), (p, store))
  | some n =>
    match commitAll w (p, store) with
    | (.ok _, t) => (.ok (), t)
    | (.crash, (p, store)) => (.ok (), ({ p with committer := some (n + 1) }, store))

/-- One pass after the other, each in an order of its own. -/
def backgroundPasses [Store σ] : List Walk → Run (Pool × σ) Empty Unit
  | [] => pure ()
  | w :: ws => do
    backgroundPass w
    backgroundPasses ws

end Pool
end ObjectSpace
