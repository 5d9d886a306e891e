import ObjectSpace.Proofs.Pool.Shutdown

/-!
# Rounds of committing

A pool is shared by the owners of its sessions and by rounds that commit them all. A round finds the
sessions that are there, visits them one after the other in some order, and prunes in the end. Between any two of
its steps the owners enter, work, keep handles and give them up, or go away, and other rounds take
steps of their own. Whatever the order, a session leaves the pool only at the end of a round, and
only if it holds no work at that moment and nobody would miss it.
-/

namespace ObjectSpace

/-- A round keeps handles of the sessions that it has found until it ends. -/
structure Round where
  report : CommitReport
  found : List Handle
  /-- Those that are still to be visited. -/
  left : List Handle

structure SharedPool (σ : Type) where
  pool : Pool
  store : σ
  /-- The rounds under way, told apart by numbers. -/
  rounds : Table Nat Round

namespace SharedPool

variable {σ : Type}

/-- One step of an owner or of a round. -/
inductive Turn (σ : Type) where
  | enter (a : Affinity)
  | hold (a : Affinity)
  | release (h : Handle)
  | lock (a : Affinity) (l : Lock)
  | work (a : Affinity) (r : Run (Session × σ) SessionError Unit)
  | leave (owner : Nat)
  | start (k : Nat) (w : Walk)
  | visit (k : Nat)
  /-- The next session is locked by another round just now, and passed over. -/
  | pass (k : Nat)
  | finish (k : Nat)

/-- Handles of all sessions that are there. -/
def handed (w : Walk) (p : Pool) : List Handle :=
  (w.order p.cells.keys).filterMap fun a => (p.cell? a).map fun c => ⟨a, c.ticket⟩

def start (x : SharedPool σ) (k : Nat) (w : Walk) : SharedPool σ :=
  match x.rounds.get? k with
  | some _ => x
  | none => { x with rounds := x.rounds.insert k ⟨.empty, handed w x.pool, handed w x.pool⟩ }

/-- Commits one session. A round that crashes there is over and prunes nothing. -/
def visit [Store σ] (x : SharedPool σ) (k : Nat) : SharedPool σ :=
  match x.rounds.get? k with
  | some ⟨report, found, h :: left⟩ =>
    match Pool.commitEach report [h.affinity] (x.pool, x.store) with
    | (.ok report, (p, store)) => ⟨p, store, x.rounds.insert k ⟨report, found, left⟩⟩
    | (.crash, (p, store)) => ⟨p, store, x.rounds.erase k⟩
  | _ => x

def pass (x : SharedPool σ) (k : Nat) : SharedPool σ :=
  match x.rounds.get? k with
  | some ⟨report, found, _ :: left⟩ =>
    { x with rounds := x.rounds.insert k ⟨report, found, left⟩ }
  | _ => x

/-- Whether a round other than this one has a handle. -/
def isFoundBeside (x : SharedPool σ) (k : Nat) (h : Handle) : Bool :=
  (x.rounds.erase k).values.any fun r => r.found.contains h

/-- Prunes what the round has found and nobody else has a handle of. -/
def finish (x : SharedPool σ) (k : Nat) : SharedPool σ :=
  match x.rounds.get? k with
  | some ⟨_, found, []⟩ =>
    { x with
      pool := { x.pool with cells := x.pool.cells.filter fun a c =>
        !(found.contains ⟨a, c.ticket⟩ && !x.isFoundBeside k ⟨a, c.ticket⟩ && x.pool.isStale a c) }
      rounds := x.rounds.erase k }
  | _ => x

def step [Store σ] (x : SharedPool σ) : Turn σ → SharedPool σ
  | .enter a => { x with pool := (x.pool.enter a).2 }
  | .hold a => { x with pool := (x.pool.hold a).2 }
  | .release h => { x with pool := x.pool.release h }
  | .lock a l => { x with pool := x.pool.setLock a l }
  | .work a r =>
    let (_, (p, store)) := Pool.onSession a r (x.pool, x.store)
    { x with pool := p, store := store }
  | .leave owner => { x with pool := x.pool.endOwner owner }
  | .start k w => x.start k w
  | .visit k => x.visit k
  | .pass k => x.pass k
  | .finish k => x.finish k

def run [Store σ] (x : SharedPool σ) (turns : List (Turn σ)) : SharedPool σ := turns.foldl step x

/-- A round over so many sessions. -/
def round (k : Nat) (w : Walk) (n : Nat) : List (Turn σ) :=
  .start k w :: (List.replicate n (.visit k) ++ [.finish k])

end SharedPool

/-! ## What owners do -/

namespace Pool

variable {σ : Type} {p p' p'' : Pool}

/-- Every session of the pool is still there. -/
def Keeps (p p' : Pool) : Prop := ∀ a n, p.ticket? a = some n → p'.ticket? a = some n

theorem Keeps.trans (h : p.Keeps p') (h' : p'.Keeps p'') : p.Keeps p'' :=
  fun a n ha => h' a n (h a n ha)

theorem keeps_putCell {a : Affinity} {c c' : Cell} (hc : p.cell? a = some c)
    (hticket : c'.ticket = c.ticket) : p.Keeps (p.putCell a c') :=
  fun a' _ ha' => (ticket?_putCell hc hticket a').trans ha'

theorem cell?_enter (p : Pool) (a : Affinity) :
    (p.enter a).2.cell? a = some (p.enter a).1 := by
  unfold enter
  cases hc : p.cell? a with
  | some c => exact hc
  | none => exact (cell?_putCell p a (p.newCell a) a).trans (if_pos rfl)

theorem keeps_enter (p : Pool) (a : Affinity) : p.Keeps (p.enter a).2 := by
  intro a' n hn
  unfold enter
  cases hc : p.cell? a with
  | some c => exact hn
  | none =>
    have hne : a' ≠ a := by
      rintro rfl
      rw [ticket?, hc] at hn
      cases hn
    change ((p.putCell a (p.newCell a)).cell? a').map Cell.ticket = some n
    rw [cell?_putCell, if_neg hne]
    exact hn

theorem keeps_hold (p : Pool) (a : Affinity) : p.Keeps (p.hold a).2 :=
  (keeps_enter p a).trans (keeps_putCell (cell?_enter p a) rfl)

theorem keeps_setLock (p : Pool) (a : Affinity) (l : Lock) : p.Keeps (p.setLock a l) :=
  (keeps_enter p a).trans (keeps_putCell (cell?_enter p a) rfl)

theorem keeps_release (p : Pool) (h : Handle) : p.Keeps (p.release h) := by
  unfold release
  cases hc : p.cell? h.affinity with
  | none => exact fun _ _ hn => hn
  | some c =>
    dsimp only
    split
    · exact keeps_putCell hc rfl
    · exact fun _ _ hn => hn

theorem commitEach_cons [Store σ] (report : CommitReport) (a : Affinity) (as : List Affinity)
    (t : Pool × σ) : commitEach report (a :: as) t =
      match commitEach report [a] t with
      | (.ok report, t) => commitEach report as t
      | (.crash, t) => (.crash, t) := by
  obtain ⟨p, store⟩ := t
  rw [commitEach, commitEach]
  dsimp only
  cases p.cell? a with
  | none => rfl
  | some c =>
    dsimp only
    split
    · rfl
    · rcases Session.commit (c.session, store) with ⟨out, s, store'⟩
      cases out with
      | ok r => rfl
      | fail e => exact e.elim
      | crash => rfl

theorem keeps_onSession {α : Type} (a : Affinity) (r : Run (Session × σ) SessionError α)
    (p : Pool) (store : σ) : p.Keeps (onSession a r (p, store)).2.1 := by
  have henter := keeps_enter p a
  have hcell := cell?_enter p a
  unfold onSession
  dsimp only
  split
  · exact henter
  · split
    · exact henter.trans (keeps_putCell hcell rfl)
    · exact henter.trans (keeps_putCell hcell rfl)

/-- Whoever comes for a session that is in the pool is given that one. -/
theorem handle_of_ticket? {h : Handle} (hp : p.ticket? h.affinity = some h.ticket) :
    p.handle h.affinity = (h, p) := by
  obtain ⟨a, n⟩ := h
  obtain ⟨c, hc, rfl⟩ := Option.map_eq_some_iff.1 hp
  rw [handle, enter, hc]

end Pool

/-! ## What ends with a round -/

namespace SharedPool

variable {σ : Type}

/-- Nothing is lost with the session, and nobody but the round has it: its owner has gone, or would
find as much in a new one. -/
structure Expendable (x : SharedPool σ) (k : Nat) (h : Handle) (c : Cell) : Prop where
  cell : x.pool.cell? h.affinity = some c
  ticket : c.ticket = h.ticket
  clean : ∀ id o, c.session.object? id = some o → o.isDirty = false
  noneQueued : ∀ id, c.session.deletions.contains id = false
  unheld : c.handles = 0
  unlocked : c.lock = .free
  unfound : ∀ k' r, k' ≠ k → x.rounds.get? k' = some r → h ∉ r.found
  idle : x.pool.ended.contains h.affinity.owner = true ∨ c.session.isEmpty = true

theorem clean_of_isDirty {s : Session} (h : s.isDirty = false) :
    (∀ id o, s.object? id = some o → o.isDirty = false) ∧
      ∀ id, s.deletions.contains id = false := by
  obtain ⟨hdeletions, hobjects⟩ := Bool.or_eq_false_iff.1 h
  refine ⟨fun id o ho => ?_, fun id => ?_⟩
  · have hmem : o ∈ s.objects.values :=
      List.mem_map.2 ⟨(id, o), Table.get?_eq_some_iff.1 ho, rfl⟩
    exact Bool.eq_false_iff.2 (List.any_eq_false.1 hobjects o hmem)
  · exact Table.get?_eq_none_iff.1 (Table.isEmpty_iff.1 (by simpa using hdeletions) id)

theorem not_found_of_isFoundBeside {x : SharedPool σ} {k : Nat} {h : Handle}
    (hbeside : x.isFoundBeside k h = false) {k' : Nat} {r : Round} (hk : k' ≠ k)
    (hr : x.rounds.get? k' = some r) : h ∉ r.found := by
  intro hfound
  have hget : (x.rounds.erase k).get? k' = some r := by
    rw [Table.get?_erase_eq, if_neg hk, hr]
  have hmem : r ∈ (x.rounds.erase k).values :=
    List.mem_map.2 ⟨(k', r), Table.get?_eq_some_iff.1 hget, rfl⟩
  exact List.any_eq_false.1 hbeside r hmem (List.contains_iff_mem.2 hfound)

theorem pool_start (x : SharedPool σ) (k : Nat) (w : Walk) : (x.start k w).pool = x.pool := by
  unfold start
  split <;> rfl

theorem pool_pass (x : SharedPool σ) (k : Nat) : (x.pass k).pool = x.pool := by
  unfold pass
  split <;> rfl

/-- A session stays where it is, unless a round ends and it is expendable. -/
theorem ticket?_finish (x : SharedPool σ) (k : Nat) {h : Handle}
    (hx : x.pool.ticket? h.affinity = some h.ticket) :
    (x.finish k).pool.ticket? h.affinity = some h.ticket ∨ ∃ c, x.Expendable k h c := by
  obtain ⟨a, n⟩ := h
  obtain ⟨c, hc, rfl⟩ := Option.map_eq_some_iff.1 hx
  unfold finish
  split
  case h_2 => exact .inl hx
  case h_1 report found hr =>
    cases hpruned : found.contains ⟨a, c.ticket⟩ && !x.isFoundBeside k ⟨a, c.ticket⟩ &&
      x.pool.isStale a c with
    | false =>
      left
      refine Option.map_eq_some_iff.2 ⟨c, (Table.get?_filter _ _ a).trans ?_, rfl⟩
      rw [show x.pool.cells.get? a = some c from hc]
      exact Option.filter_eq_some_iff.2 ⟨rfl, by rw [hpruned]; rfl⟩
    | true =>
      right
      simp only [Pool.isStale, Bool.and_eq_true, Bool.not_eq_true', beq_iff_eq, Bool.or_eq_true]
        at hpruned
      obtain ⟨⟨_, hbeside⟩, ⟨⟨hunheld, hunlocked⟩, hdirty⟩, hidle⟩ := hpruned
      obtain ⟨hclean, hqueued⟩ := clean_of_isDirty hdirty
      exact ⟨c, hc, rfl, hclean, hqueued, hunheld, hunlocked,
        fun _ _ hk hr => not_found_of_isFoundBeside hbeside hk hr, hidle⟩

variable [Store σ]

theorem keeps_visit (x : SharedPool σ) (k : Nat) : x.pool.Keeps (x.visit k).pool := by
  intro a n hn
  unfold visit
  split
  case h_1 report found h left hr =>
    have hcommit := Pool.ticket?_commitEach report [h.affinity] x.pool x.store a
    rcases hround : Pool.commitEach report [h.affinity] (x.pool, x.store) with ⟨out, p, store⟩
    rw [hround] at hcommit
    cases out with
    | ok report => exact hcommit.trans hn
    | fail e => exact e.elim
    | crash => exact hcommit.trans hn
  case h_2 => exact hn

theorem ticket?_step (x : SharedPool σ) (t : Turn σ) {h : Handle}
    (hx : x.pool.ticket? h.affinity = some h.ticket) :
    (step x t).pool.ticket? h.affinity = some h.ticket ∨
      ∃ k c, t = .finish k ∧ x.Expendable k h c := by
  cases t with
  | enter a => exact .inl (Pool.keeps_enter _ a _ _ hx)
  | hold a => exact .inl (Pool.keeps_hold _ a _ _ hx)
  | release h' => exact .inl (Pool.keeps_release _ h' _ _ hx)
  | lock a l => exact .inl (Pool.keeps_setLock _ a l _ _ hx)
  | work a r => exact .inl (Pool.keeps_onSession a r _ _ _ _ hx)
  | leave owner => exact .inl hx
  | start k w => exact .inl ((pool_start x k w).symm ▸ hx)
  | visit k => exact .inl (keeps_visit x k _ _ hx)
  | pass k => exact .inl ((pool_pass x k).symm ▸ hx)
  | finish k => exact (ticket?_finish x k hx).imp_right fun ⟨c, hc⟩ => ⟨k, c, rfl, hc⟩

/-- A session is in the pool after any run, or a round of the run has ended when it was
expendable. -/
theorem ticket?_run (x : SharedPool σ) (turns : List (Turn σ)) {h : Handle}
    (hx : x.pool.ticket? h.affinity = some h.ticket) :
    (run x turns).pool.ticket? h.affinity = some h.ticket ∨
      ∃ before k after c, turns = before ++ .finish k :: after ∧
        (run x before).Expendable k h c := by
  induction turns generalizing x with
  | nil => exact .inl hx
  | cons t turns ih =>
    rcases ticket?_step x t hx with hstep | ⟨k, c, rfl, hc⟩
    · refine (ih (step x t) hstep).imp_right ?_
      rintro ⟨before, k, after, c, rfl, hc⟩
      exact ⟨t :: before, k, after, c, rfl, hc⟩
    · exact .inr ⟨[], k, turns, c, rfl, hc⟩

/-! ## Rounds that nobody disturbs -/

omit [Store σ] in
theorem mem_handed {w : Walk} {p : Pool} {h : Handle} :
    h ∈ handed w p ↔ p.ticket? h.affinity = some h.ticket := by
  rw [Pool.ticket?, Option.map_eq_some_iff, handed, List.mem_filterMap]
  constructor
  · rintro ⟨a, _, hfound⟩
    obtain ⟨c, hc, rfl⟩ := Option.map_eq_some_iff.1 hfound
    exact ⟨c, hc, rfl⟩
  · rintro ⟨c, hc, hticket⟩
    refine ⟨h.affinity, (w.perm _).mem_iff.2 ?_, Option.map_eq_some_iff.2 ⟨c, hc, ?_⟩⟩
    · exact Table.mem_keys.2 (Table.contains_iff.2 ⟨c, hc⟩)
    · rw [hticket]

omit [Store σ] in
theorem map_affinity_handed (w : Walk) (p : Pool) :
    (handed w p).map Handle.affinity = w.order p.cells.keys := by
  have hthere : ∀ a ∈ w.order p.cells.keys, ∃ c, p.cell? a = some c := fun a ha =>
    Table.contains_iff.1 (Table.mem_keys.1 ((w.perm _).mem_iff.1 ha))
  unfold handed
  generalize w.order p.cells.keys = as at hthere ⊢
  induction as with
  | nil => rfl
  | cons a as ih =>
    obtain ⟨c, hc⟩ := hthere a List.mem_cons_self
    rw [List.filterMap_cons, hc]
    exact congrArg (a :: ·) (ih fun a' ha' => hthere a' (List.mem_cons_of_mem a ha'))

omit [Store σ] in
theorem isFoundBeside_alone (p : Pool) (store : σ) (k : Nat) (r : Round) (h : Handle) :
    isFoundBeside ⟨p, store, Table.insert {} k r⟩ k h = false := by
  unfold isFoundBeside
  rw [Table.erase_insert rfl]
  rfl

theorem run_visits_of_none {x : SharedPool σ} {k : Nat} (hk : x.rounds.get? k = none) (n : Nat) :
    run x (List.replicate n (.visit k)) = x := by
  induction n with
  | zero => rfl
  | succ n ih =>
    have hvisit : x.visit k = x := by
      unfold visit
      rw [hk]
    change run (x.visit k) (List.replicate n (.visit k)) = x
    rw [hvisit, ih]

/-- The visits of a round that is alone commit its sessions one after the other. -/
theorem run_visits (k : Nat) (report : CommitReport) (found left : List Handle) (p : Pool)
    (store : σ) :
    run ⟨p, store, Table.insert {} k ⟨report, found, left⟩⟩
        (List.replicate left.length (.visit k)) =
      match Pool.commitEach report (left.map Handle.affinity) (p, store) with
      | (.ok report, (p, store)) => ⟨p, store, Table.insert {} k ⟨report, found, []⟩⟩
      | (.crash, (p, store)) => ⟨p, store, {}⟩ := by
  induction left generalizing report p store with
  | nil => rfl
  | cons h left ih =>
    rw [List.map_cons, Pool.commitEach_cons]
    change run (visit _ k) (List.replicate left.length (.visit k)) = _
    unfold visit
    rw [Table.get?_insert_self]
    dsimp only
    rcases Pool.commitEach report [h.affinity] (p, store) with ⟨out, p', store'⟩
    cases out with
    | ok report' =>
      dsimp only
      rw [Table.insert_insert]
      exact ih report' p' store'
    | fail e => exact e.elim
    | crash =>
      dsimp only
      rw [Table.erase_insert rfl]
      exact run_visits_of_none rfl _

omit [Store σ] in
theorem finish_alone {p p' : Pool} (hp : ∀ a, p'.ticket? a = p.ticket? a) (store : σ) (k : Nat)
    (w : Walk) (report : CommitReport) :
    finish ⟨p', store, Table.insert {} k ⟨report, handed w p, []⟩⟩ k = ⟨p'.prune, store, {}⟩ := by
  have hcells : ∀ f : Affinity → Cell → Bool,
      (∀ a c, p'.cell? a = some c → f a c = !p'.isStale a c) →
      p'.cells.filter f = p'.cells.filter fun a c => !p'.isStale a c := by
    intro f hf
    apply Table.ext_get?
    intro a
    rw [Table.get?_filter, Table.get?_filter]
    cases hc : p'.cells.get? a with
    | none => rfl
    | some c => rw [Option.filter_some, Option.filter_some, hf a c hc]
  unfold finish
  rw [Table.get?_insert_self]
  dsimp only
  rw [Table.erase_insert rfl, hcells]
  · rfl
  · intro a c hc
    have hfound : (⟨a, c.ticket⟩ : Handle) ∈ handed w p := by
      rw [mem_handed, ← hp]
      exact Option.map_eq_some_iff.2 ⟨c, hc, rfl⟩
    rw [List.contains_iff_mem.2 hfound, isFoundBeside_alone, Bool.not_false, Bool.true_and,
      Bool.true_and]

/-- A round that nobody disturbs commits the pool as a whole. -/
theorem run_round (p : Pool) (store : σ) (k : Nat) (w : Walk) :
    run ⟨p, store, {}⟩ (round k w p.size) =
      ⟨(Pool.commitAll w (p, store)).2.1, (Pool.commitAll w (p, store)).2.2, {}⟩ := by
  have hkeys := map_affinity_handed w p
  have hsize : p.size = (handed w p).length :=
    calc p.size = p.cells.keys.length := (List.length_map _).symm
      _ = (w.order p.cells.keys).length := (w.perm _).length_eq.symm
      _ = (handed w p).length := by rw [← hkeys, List.length_map]
  have hticket := Pool.ticket?_commitEach .empty (w.order p.cells.keys) p store
  have hvisits := run_visits k .empty (handed w p) (handed w p) p store
  rw [hkeys] at hvisits
  calc run ⟨p, store, {}⟩ (round k w p.size)
      = finish (run ⟨p, store, Table.insert {} k ⟨.empty, handed w p, handed w p⟩⟩
          (List.replicate (handed w p).length (.visit k))) k := by
        rw [round, hsize]
        exact List.foldl_append
    _ = _ := by
        rw [hvisits, Pool.commitAll]
        rcases hround : Pool.commitEach .empty (w.order p.cells.keys) (p, store)
          with ⟨out, p', store'⟩
        rw [hround] at hticket
        cases out with
        | ok report => exact finish_alone hticket store' k w report
        | fail e => exact e.elim
        | crash => rfl

/-! ## Any order of steps -/

/-- Every session that a round has found is in the pool. -/
def Sound (x : SharedPool σ) : Prop :=
  ∀ k r h, x.rounds.get? k = some r → h ∈ r.found → x.pool.ticket? h.affinity = some h.ticket

theorem exists_found_of_visit {x : SharedPool σ} {k k' : Nat} {r : Round} {h : Handle}
    (hr : (x.visit k').rounds.get? k = some r) (hfound : h ∈ r.found) :
    ∃ r', x.rounds.get? k = some r' ∧ h ∈ r'.found := by
  unfold visit at hr
  split at hr
  case h_2 => exact ⟨r, hr, hfound⟩
  case h_1 report found h' left hk' =>
    rcases hround : Pool.commitEach report [h'.affinity] (x.pool, x.store) with ⟨out, p, store⟩
    rw [hround] at hr
    cases out with
    | fail e => exact e.elim
    | ok report' =>
      dsimp only at hr
      rw [Table.get?_insert] at hr
      split at hr
      case isTrue heq =>
        cases hr
        subst heq
        exact ⟨_, hk', hfound⟩
      case isFalse => exact ⟨r, hr, hfound⟩
    | crash =>
      dsimp only at hr
      rw [Table.get?_erase_eq] at hr
      split at hr
      · cases hr
      · exact ⟨r, hr, hfound⟩

omit [Store σ] in
theorem exists_found_of_pass {x : SharedPool σ} {k k' : Nat} {r : Round} {h : Handle}
    (hr : (x.pass k').rounds.get? k = some r) (hfound : h ∈ r.found) :
    ∃ r', x.rounds.get? k = some r' ∧ h ∈ r'.found := by
  unfold pass at hr
  split at hr
  case h_2 => exact ⟨r, hr, hfound⟩
  case h_1 report found h' left hk' =>
    dsimp only at hr
    rw [Table.get?_insert] at hr
    split at hr
    case isTrue heq =>
      cases hr
      subst heq
      exact ⟨_, hk', hfound⟩
    case isFalse => exact ⟨r, hr, hfound⟩

omit [Store σ] in
theorem Sound.start {x : SharedPool σ} (hx : x.Sound) (k' : Nat) (w : Walk) :
    (x.start k' w).Sound := by
  intro k r h hr hfound
  rw [pool_start]
  unfold SharedPool.start at hr
  split at hr
  case h_1 => exact hx k r h hr hfound
  case h_2 =>
    dsimp only at hr
    rw [Table.get?_insert] at hr
    split at hr
    case isTrue =>
      cases hr
      exact mem_handed.1 hfound
    case isFalse => exact hx k r h hr hfound

omit [Store σ] in
theorem finish_cases (x : SharedPool σ) (k : Nat) :
    x.finish k = x ∨ (x.finish k).rounds = x.rounds.erase k := by
  unfold finish
  split
  · exact .inr rfl
  · exact .inl rfl

omit [Store σ] in
theorem Sound.finish {x : SharedPool σ} (hx : x.Sound) (k' : Nat) : (x.finish k').Sound := by
  intro k r h hr hfound
  rcases finish_cases x k' with hsame | hrounds
  · rw [hsame] at hr ⊢
    exact hx k r h hr hfound
  · rw [hrounds, Table.get?_erase_eq] at hr
    split at hr
    case isTrue => cases hr
    case isFalse hne =>
      refine (ticket?_finish x k' (hx k r h hr hfound)).resolve_right ?_
      rintro ⟨c, hc⟩
      exact hc.unfound k r hne hr hfound

theorem Sound.step {x : SharedPool σ} (hx : x.Sound) (t : Turn σ) : (step x t).Sound := by
  cases t with
  | enter a => exact fun k r h hr hfound => Pool.keeps_enter _ a _ _ (hx k r h hr hfound)
  | hold a => exact fun k r h hr hfound => Pool.keeps_hold _ a _ _ (hx k r h hr hfound)
  | release h' => exact fun k r h hr hfound => Pool.keeps_release _ h' _ _ (hx k r h hr hfound)
  | lock a l => exact fun k r h hr hfound => Pool.keeps_setLock _ a l _ _ (hx k r h hr hfound)
  | work a r' =>
    exact fun k r h hr hfound => Pool.keeps_onSession a r' _ _ _ _ (hx k r h hr hfound)
  | leave owner => exact hx
  | start k w => exact hx.start k w
  | visit k' =>
    intro k r h hr hfound
    obtain ⟨r', hr', hfound'⟩ := exists_found_of_visit hr hfound
    exact keeps_visit x k' _ _ (hx k r' h hr' hfound')
  | pass k' =>
    intro k r h hr hfound
    obtain ⟨r', hr', hfound'⟩ := exists_found_of_pass hr hfound
    exact (pool_pass x k').symm ▸ hx k r' h hr' hfound'
  | finish k => exact hx.finish k

/-- A session that a round has found is in the pool until the round ends, so a visit commits the
very session that was found. -/
theorem sound_run (p : Pool) (store : σ) (turns : List (Turn σ)) :
    (run ⟨p, store, {}⟩ turns).Sound := by
  suffices ∀ x : SharedPool σ, x.Sound → (run x turns).Sound from this _ fun _ _ _ hr => nomatch hr
  intro x hx
  induction turns generalizing x with
  | nil => exact hx
  | cons t turns ih => exact ih (SharedPool.step x t) (hx.step t)

/-- A session that is in the pool is the one that its owner is given ever after, unless a round ends
when the session holds no work, nobody else has it, and its owner has gone or it caches nothing.
So an owner keeps a session that is held or not empty whenever a round ends. A round that nobody
disturbs does what committing the whole pool in the same order does. -/
theorem session_stays (x : SharedPool σ) (turns : List (Turn σ)) {h : Handle}
    (hx : x.pool.ticket? h.affinity = some h.ticket) :
    ((run x turns).pool.handle h.affinity = (h, (run x turns).pool) ∨
      ∃ before k after c, turns = before ++ .finish k :: after ∧
        (run x before).Expendable k h c) ∧
    ((∀ before k after c, turns = before ++ .finish k :: after →
        (run x before).pool.cell? h.affinity = some c → c.ticket = h.ticket →
        0 < c.handles ∨ (run x before).pool.ended.contains h.affinity.owner = false ∧
          c.session.isEmpty = false) →
      (run x turns).pool.handle h.affinity = (h, (run x turns).pool)) ∧
    ∀ p (store : σ) k w, run ⟨p, store, {}⟩ (round k w p.size) =
      ⟨(Pool.commitAll w (p, store)).2.1, (Pool.commitAll w (p, store)).2.2, {}⟩ := by
  have hor := (ticket?_run x turns hx).imp_left Pool.handle_of_ticket?
  refine ⟨hor, fun hneeded => hor.resolve_right ?_, run_round⟩
  rintro ⟨before, k, after, c, hturns, hc⟩
  rcases hneeded before k after c hturns hc.cell hc.ticket with hheld | ⟨halive, hfull⟩
  · exact Nat.ne_of_gt hheld hc.unheld
  · rcases hc.idle with hended | hempty
    · cases halive.symm.trans hended
    · cases hfull.symm.trans hempty

def crowded : SharedPool (Unreliable Memory) :=
  ⟨{ Pool.crowded with next := 3 }, Session.refusing, {}⟩

/-- The second owner leaves while two rounds are under way. -/
def overlapping : List (Turn (Unreliable Memory)) :=
  [.start 0 .sorted, .visit 0, .visit 0, .leave 2, .start 1 .sorted, .visit 0, .finish 0, .visit 1,
    .visit 1, .visit 1, .finish 1]

/-- The round that ends first leaves the session to the other one. -/
theorem session_stays_overlapping :
    crowded.pool.ticket? ⟨2, 0⟩ = some 1 ∧
      (run crowded (overlapping.take 7)).pool.ticket? ⟨2, 0⟩ = some 1 ∧
      (run crowded overlapping).pool.ticket? ⟨2, 0⟩ = none ∧
      ∃ before k after c, overlapping = before ++ .finish k :: after ∧
        (run crowded before).Expendable k ⟨⟨2, 0⟩, 1⟩ c := by
  have hfirst : crowded.pool.ticket? ⟨2, 0⟩ = some 1 := by decide +kernel
  refine ⟨hfirst, by decide +kernel, by decide +kernel, ?_⟩
  obtain ⟨hstays | hexpendable, _⟩ := session_stays crowded overlapping (h := ⟨⟨2, 0⟩, 1⟩) hfirst
  · have hticket : ((run crowded overlapping).pool.handle ⟨2, 0⟩).1.ticket ≠ 1 := by
      decide +kernel
    rw [hstays] at hticket
    exact absurd rfl hticket
  · exact hexpendable

end SharedPool
end ObjectSpace
