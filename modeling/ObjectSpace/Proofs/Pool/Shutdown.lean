import Mathlib.Logic.Function.Basic
import ObjectSpace.Pool.Commit
import ObjectSpace.Proofs.Session.Separation
import ObjectSpace.Proofs.Session.Through

/-!
# Shutting down

A pool that is shut down commits its sessions one after the other and discards them all. The writes
that the store has taken from a session do what the session was to do, except for the objects that
are named among the failures. Nothing of this holds for a session that is locked at that time, nor
for an object that is in its session and queued for deletion at once: they are lost without a word.
-/

namespace ObjectSpace

open Store (Related Kept)

/-! ## One session -/

namespace Session

/-- Apart from the objects that are named, these entries do what the session was to do: they write
the dirty fields, unless their object was to be deleted, and clear the slots of what was to be
deleted. All other objects they leave as they are. -/
structure Accounted (s : Session) (names : List Identity) (es : List Entry) : Prop where
  dirty : ∀ id o i, s.object? id = some o → o.state.dirty.contains i = true →
    s.deletions.contains id = false → id ∈ names ∨ ∃ f payload, o.schema.fieldAt? i = some f ∧
      f.shape.encode f.name (o.cached i) = .ok payload ∧
      ∀ slots, (es.foldl (Entry.replay id) slots).get? i = some payload
  deleted : ∀ id, s.deletions.contains id = true →
    id ∈ names ∨ ∀ slots, es.foldl (Entry.replay id) slots = {}
  others : ∀ id, (∀ o, s.object? id = some o → o.isDirty = false) →
    s.deletions.contains id = false → ∀ slots, es.foldl (Entry.replay id) slots = slots

variable {σ : Type} [Store σ] {s s' : Session} {store : σ} {report : CommitReport} {j : Journal σ}

theorem Accounted.mono {names names' : List Identity} {es : List Entry}
    (h : s.Accounted names es) (hnames : names ⊆ names') : s.Accounted names' es where
  dirty id o i ho hi hqueued := (h.dirty id o i ho hi hqueued).imp_left (hnames ·)
  deleted id hqueued := (h.deleted id hqueued).imp_left (hnames ·)
  others := h.others

theorem isDirty_of_contains {o : Resident} {i : UInt32} (h : o.state.dirty.contains i = true) :
    o.isDirty = true := by
  rw [← Bool.not_eq_false]
  exact fun hclean => Bool.eq_false_iff.1 (Resident.contains_of_clean hclean i) h

theorem accounted_commit (hkeyed : s.Keyed)
    (hcommit : commit (s, Journal.start store) = (.ok report, (s', j))) :
    s.Accounted report.names j.entries where
  dirty id o i ho hi hqueued := by
    by_cases hnamed : id ∈ report.names
    · exact .inl hnamed
    -- the object is clean now, so its batch was written, whatever slots the entries begin with
    have hwritten : ∀ slots, ∃ b, o.batch = .ok b ∧
        j.entries.foldl (Entry.replay id) slots = slots.merge b := by
      intro slots
      obtain ⟨o', ho', hfate⟩ := commit_fate hkeyed (Journal.tracks_replay id slots) ho hqueued
        (Journal.start store)
      rw [hcommit] at ho' hfate
      have hclean : o'.isDirty ≠ true := fun h => hnamed (named_of_commit hkeyed hcommit ho' h)
      dsimp only at hfate
      generalize j.entries.foldl (Entry.replay id) slots = slots' at hfate
      cases hfate with
      | waits => exact absurd (isDirty_of_contains hi) hclean
      | written hb => exact ⟨_, hb, rfl⟩
    obtain ⟨b, hb, _⟩ := hwritten {}
    obtain ⟨payload, hpayload⟩ := Table.contains_iff.1 ((Resident.contains_batch hb i).trans hi)
    obtain ⟨v, f, hv, hf, hencode⟩ := Resident.exists_of_get?_batch hb hpayload
    rw [Resident.get?_pending, if_pos hi] at hv
    obtain rfl : o.cached i = v := Option.some.inj hv
    refine .inr ⟨f, payload, hf, hencode, fun slots => ?_⟩
    obtain ⟨b', hb', hslots⟩ := hwritten slots
    obtain rfl : b = b' := Except.ok.inj (hb.symm.trans hb')
    rw [hslots, Table.get?_merge, hpayload, Option.some_or]
  deleted id hqueued := by
    by_cases hnamed : id ∈ report.names
    · exact .inl hnamed
    · refine .inr fun slots => ?_
      exact (held_commit (Journal.tracks_replay id slots) hqueued hcommit).resolve_left
        fun h => hnamed h.1
  others id hclean hqueued slots := by
    have hwithin : s.Within (· ≠ id) := by
      refine ⟨hkeyed, fun id' o ho hdirty => ?_, fun id' hid => ?_⟩
      · rintro rfl
        cases (hclean o ho).symm.trans hdirty
      · rintro rfl
        cases hqueued.symm.trans hid
    have hkept := (parallel_commit ((Journal.tracks_replay id slots).others (· = slots))
      (s := (s, Journal.start store)) (t := (s, Journal.start store))
      ⟨rfl, hwithin, rfl, rfl⟩).2.stores.2
    rw [hcommit] at hkept
    exact hkept

/-- A commit over a journal adds the entries that it makes in a new one. -/
theorem commit_journal (hkeyed : s.Keyed) (j : Journal σ) :
    let x := commit (s, Journal.start j.behind)
    commit (s, j) = (x.1, (x.2.1, ⟨x.2.2.behind, j.entries ++ x.2.2.entries⟩)) := by
  have hj : j = ⟨j.behind, j.entries ++ (Journal.start j.behind).entries⟩ :=
    congrArg (Journal.mk _) (List.append_nil _).symm
  obtain ⟨hout, hover⟩ := parallel_commit (Journal.related_after j.entries)
    (s := (s, Journal.start j.behind)) (t := (s, j))
    ⟨rfl, ⟨hkeyed, fun _ _ _ _ => trivial, fun _ _ => trivial⟩, hj⟩
  exact Prod.ext hout (Prod.ext hover.session hover.stores)

end Session

/-! ## The pool -/

namespace Pool

open Session (broughtBack counterCatalog counterId counters dirtyCounter refusing)

variable {σ τ : Type} {R : σ → τ → Prop} {p p' : Pool} {report report' : CommitReport}

/-- Every session holds its objects under their own identities. -/
def Keyed (p : Pool) : Prop := ∀ a c, p.cell? a = some c → c.session.Keyed

/-- The ticket of the session of this affinity. -/
def ticket? (p : Pool) (a : Affinity) : Option Nat := (p.cell? a).map Cell.ticket

/-- The same pool over each of two stores. -/
structure Over (R : σ → τ → Prop) (x : Pool × σ) (y : Pool × τ) : Prop where
  pool : y.1 = x.1
  keyed : x.1.Keyed
  stores : R x.2 y.2

theorem cell?_putCell (p : Pool) (a : Affinity) (c : Cell) (a' : Affinity) :
    (p.putCell a c).cell? a' = if a' = a then some c else p.cell? a' :=
  Table.get?_insert _ _ _ _

theorem Keyed.putCell (h : p.Keyed) (a : Affinity) {c : Cell} (hc : c.session.Keyed) :
    (p.putCell a c).Keyed := by
  intro a' c' hc'
  rw [cell?_putCell] at hc'
  split at hc'
  · cases hc'
    exact hc
  · exact h a' c' hc'

variable [Store σ] [Store τ]

theorem parallel_commitEach (hrelated : Related (fun _ => True) R) (report : CommitReport)
    (as : List Affinity) : Run.Parallel (Over R) (commitEach report as) (commitEach report as) := by
  induction as generalizing report with
  | nil => exact fun _ _ h => ⟨rfl, h⟩
  | cons a as ih =>
    rintro ⟨_, store⟩ ⟨p, store'⟩ ⟨rfl, hkeyed, hR⟩
    unfold commitEach
    dsimp only
    cases hc : p.cell? a with
    | none => exact ih report ⟨rfl, hkeyed, hR⟩
    | some c =>
      dsimp only
      by_cases hheld : c.lock = .held
      · rw [if_pos hheld, if_pos hheld]
        exact ih report ⟨rfl, hkeyed, hR⟩
      · rw [if_neg hheld, if_neg hheld]
        obtain ⟨out, ⟨_, t⟩, ⟨s', t'⟩, hx, hy, rfl, hs', hR'⟩ :=
          (Session.parallel_commit hrelated).exists_end (s := (c.session, store))
            (t := (c.session, store')) ⟨rfl, ⟨hkeyed a c hc, fun _ _ _ _ => trivial,
              fun _ _ => trivial⟩, hR⟩
        rw [hx, hy]
        cases out with
        | ok r => exact ih _ ⟨rfl, hkeyed.putCell a hs'.keyed, hR'⟩
        | fail e => exact e.elim
        | crash => exact ⟨rfl, rfl, hkeyed.putCell a hs'.keyed, hR'⟩

omit [Store τ] in
theorem shutdown_apply (w : Walk) (p : Pool) (store : σ) : shutdown w (p, store) =
    match commitEach .empty (w.order p.cells.keys) ({ p with committer := none }, store) with
    | (.ok report, (p, store)) => (.ok report, ({ p with cells := {} }, store))
    | (.crash, t) => (.crash, t) := by
  unfold shutdown commitAll
  dsimp only
  rcases commitEach .empty (w.order p.cells.keys) ({ p with committer := none }, store)
    with ⟨out, p', t⟩
  cases out with
  | ok report => rfl
  | fail e => exact e.elim
  | crash => rfl

/-- Shut down over related stores, a pool answers alike. -/
theorem parallel_shutdown (hrelated : Related (fun _ => True) R) (w : Walk) :
    Run.Parallel (Over R) (shutdown w) (shutdown w) := by
  rintro ⟨_, store⟩ ⟨p, store'⟩ ⟨rfl, hkeyed, hR⟩
  obtain ⟨out, ⟨_, t⟩, ⟨p', t'⟩, hx, hy, rfl, hkeyed', hR'⟩ :=
    (parallel_commitEach hrelated .empty (w.order p.cells.keys)).exists_end
      (s := ({ p with committer := none }, store)) (t := ({ p with committer := none }, store'))
      ⟨rfl, hkeyed, hR⟩
  rw [shutdown_apply, shutdown_apply, hx, hy]
  cases out with
  | ok report => exact ⟨rfl, rfl, (fun _ _ h => nomatch h), hR'⟩
  | fail e => exact e.elim
  | crash => exact ⟨rfl, rfl, hkeyed', hR'⟩

omit [Store τ] in
/-- A commit of all at one session: nobody is there or it is locked, or it is committed, and the
others follow unless the store crashes. -/
theorem commitEach_cases (p : Pool) (store : σ) (report : CommitReport) (a : Affinity)
    (as : List Affinity) :
    ((∀ c, p.cell? a = some c → c.lock = .held) ∧
      commitEach report (a :: as) (p, store) = commitEach report as (p, store)) ∨
    ∃ c s store', p.cell? a = some c ∧ c.lock ≠ .held ∧
      ((Session.commit (c.session, store) = (.crash, (s, store')) ∧
          commitEach report (a :: as) (p, store) =
            (.crash, (p.putCell a { c with session := s, lock := .poisoned }, store'))) ∨
        ∃ r, Session.commit (c.session, store) = (.ok r, (s, store')) ∧
          commitEach report (a :: as) (p, store) = commitEach (report.merge r) as
            (p.putCell a { c with session := s, lock := .free }, store')) := by
  rw [commitEach]
  dsimp only
  cases hc : p.cell? a with
  | none => exact .inl ⟨nofun, rfl⟩
  | some c =>
    dsimp only
    by_cases hheld : c.lock = .held
    · refine .inl ⟨fun c' hc' => ?_, if_pos hheld⟩
      cases hc'
      exact hheld
    · rw [if_neg hheld]
      rcases hcommit : Session.commit (c.session, store) with ⟨out, s, store'⟩
      refine .inr ⟨c, s, store', rfl, hheld, ?_⟩
      cases out with
      | ok r => exact .inr ⟨r, hcommit, rfl⟩
      | fail e => exact e.elim
      | crash => exact .inl ⟨hcommit, rfl⟩

/-- A session that is changed in its place stays the session that it was. -/
theorem ticket?_putCell {a : Affinity} {c c' : Cell} (hc : p.cell? a = some c)
    (hticket : c'.ticket = c.ticket) (a' : Affinity) :
    (p.putCell a c').ticket? a' = p.ticket? a' := by
  rw [ticket?, ticket?, cell?_putCell]
  split
  case isTrue heq => rw [heq, hc, Option.map_some, Option.map_some, hticket]
  case isFalse => rfl

omit [Store τ] in
theorem ticket?_commitEach (report : CommitReport) (as : List Affinity) (p : Pool) (store : σ)
    (a : Affinity) : (commitEach report as (p, store)).2.1.ticket? a = p.ticket? a := by
  induction as generalizing p report store with
  | nil => rfl
  | cons a' as ih =>
    rcases commitEach_cases p store report a' as with
      ⟨_, hround⟩ | ⟨c, s, store', hc, _, ⟨_, hround⟩ | ⟨r, _, hround⟩⟩ <;> rw [hround]
    · exact ih report p store
    · exact ticket?_putCell hc (by rfl) a
    · exact (ih (report.merge r) _ store').trans (ticket?_putCell hc (by rfl) a)

omit [Store τ] in
/-- No session leaves the pool while it is committed. -/
theorem contains_commitEach (report : CommitReport) (as : List Affinity) (p : Pool) (store : σ)
    (a : Affinity) :
    (commitEach report as (p, store)).2.1.cells.contains a = p.cells.contains a := by
  have hsome : ∀ q : Pool, q.cells.contains a = (q.ticket? a).isSome := fun _ =>
    Option.isSome_map.symm
  rw [hsome, hsome, ticket?_commitEach]

theorem mem_names_merge {r r' : CommitReport} {id : Identity} :
    id ∈ (r.merge r').names ↔ id ∈ r.names ∨ id ∈ r'.names := by
  unfold CommitReport.names CommitReport.merge
  rw [List.map_append, List.mem_append]

omit [Store τ] in
/-- What goes on after one session: its entries account for it, unless it is locked. -/
theorem commitEach_cons_eq_ok (hkeyed : p.Keyed) {a : Affinity} {as : List Affinity}
    {j j' : Journal σ} (h : commitEach report (a :: as) (p, j) = (.ok report', (p', j'))) :
    ∃ report₁ p₁ j₁ es, commitEach report₁ as (p₁, j₁) = (.ok report', (p', j')) ∧ p₁.Keyed ∧
      (∀ a', a' ≠ a → p₁.cell? a' = p.cell? a') ∧ report.names ⊆ report₁.names ∧
      j₁.entries = j.entries ++ es ∧ ∀ c, p.cell? a = some c → (c.lock = .held → es = []) ∧
        (c.lock ≠ .held → c.session.Accounted report₁.names es) := by
  rcases commitEach_cases p j report a as with
    ⟨hheld, hround⟩ | ⟨c, s, j₁, hc, hfree, ⟨_, hround⟩ | ⟨r, hcommit, hround⟩⟩ <;> rw [hround] at h
  · exact ⟨_, _, _, [], h, hkeyed, fun _ _ => rfl, List.Subset.refl _, (List.append_nil _).symm,
      fun c hc => ⟨fun _ => rfl, fun hfree => absurd (hheld c hc) hfree⟩⟩
  · cases h
  · have hsession := hkeyed a c hc
    have hworks : Session.Works c.session
        (Session.commit (c.session, Journal.start j.behind)).2.1 := Session.works_commit hsession
    rw [Session.commit_journal hsession] at hcommit
    rcases hstart : Session.commit (c.session, Journal.start j.behind) with ⟨out, s', es⟩
    rw [hstart] at hcommit hworks
    cases hcommit
    refine ⟨_, _, _, es.entries, h, hkeyed.putCell a (hworks.keyed hsession), fun a' hne => ?_,
      fun _ hid => mem_names_merge.2 (.inl hid), rfl, fun c' hc' => ?_⟩
    · rw [cell?_putCell, if_neg hne]
    · cases hc.symm.trans hc'
      exact ⟨fun hheld => absurd hheld hfree, fun _ =>
        (Session.accounted_commit hsession hstart).mono fun _ hid => mem_names_merge.2 (.inr hid)⟩

omit [Store τ] in
/-- The entries of each session account for it. -/
theorem exists_entries_of_commitEach (hkeyed : p.Keyed) {as : List Affinity} (hnodup : as.Nodup)
    {j j' : Journal σ} (h : commitEach report as (p, j) = (.ok report', (p', j'))) :
    report.names ⊆ report'.names ∧ ∃ es : Affinity → List Entry,
      j'.entries = j.entries ++ as.flatMap es ∧ ∀ a ∈ as, ∀ c, p.cell? a = some c →
        (c.lock = .held → es a = []) ∧
        (c.lock ≠ .held → c.session.Accounted report'.names (es a)) := by
  induction as generalizing p report j with
  | nil =>
    cases h
    exact ⟨List.Subset.refl _, fun _ => [], (List.append_nil _).symm, fun _ h => nomatch h⟩
  | cons a as ih =>
    obtain ⟨hfresh, hnodup⟩ := List.nodup_cons.1 hnodup
    obtain ⟨report₁, p₁, j₁, e, hrest, hkeyed₁, hcells, hnames, hj₁, hfirst⟩ :=
      commitEach_cons_eq_ok hkeyed h
    obtain ⟨hnames', es, hj', hes⟩ := ih hkeyed₁ hnodup hrest
    refine ⟨List.Subset.trans hnames hnames', Function.update es a e, ?_, ?_⟩
    · have hsame : as.flatMap (Function.update es a e) = as.flatMap es := by
        refine List.flatMap_congr fun a' ha' => ?_
        have hne : a' ≠ a := fun heq => hfresh (heq ▸ ha')
        rw [Function.update_of_ne hne]
      rw [List.flatMap_cons, Function.update_self, hsame, hj', hj₁, List.append_assoc]
    · intro a' ha' c hc
      by_cases hne : a' = a
      · subst hne
        rw [Function.update_self]
        exact (hfirst c hc).imp_right fun haccounted hfree => (haccounted hfree).mono hnames'
      · rw [Function.update_of_ne hne]
        exact hes a' ((List.mem_cons.1 ha').resolve_left hne) c ((hcells a' hne).trans hc)

variable [LawfulStore σ]

/-- A pool that is shut down over a journal answers as without one, and no slots change but by what
was noted. Unless it crashes, it discards all sessions, and the entries are those of its sessions
one after the other, whatever the order: none of a session that was locked, and of any other those
that account for its work. -/
theorem shutdown_accounts (w : Walk) (hkeyed : p.Keyed) (store : σ) :
    let x := shutdown w (p, Journal.start store)
    x.1 = (shutdown w (p, store)).1 ∧ x.2.2.behind = (shutdown w (p, store)).2.2 ∧
    x.2.2.Faithful store ∧
    ((x.1 = .crash ∧ ∀ a, x.2.1.cells.contains a = p.cells.contains a) ∨
      ∃ report es, x.1 = .ok report ∧ x.2.1.cells = {} ∧
        x.2.2.entries = (w.order p.cells.keys).flatMap es ∧ ∀ a c, p.cell? a = some c →
          (c.lock = .held → es a = []) ∧
          (c.lock ≠ .held → c.session.Accounted report.names (es a))) := by
  intro x
  have hbehind := parallel_shutdown Journal.related_behind w (s := (p, store))
    (t := (p, Journal.start store)) ⟨rfl, hkeyed, rfl⟩
  have hfaithful := (parallel_shutdown (Journal.related_faithful store) w
    (s := (p, Journal.start store)) (t := (p, Journal.start store))
    ⟨rfl, hkeyed, rfl, Journal.faithful_start store⟩).2.stores.2
  refine ⟨hbehind.1, hbehind.2.stores, hfaithful, ?_⟩
  have hcells := contains_commitEach .empty (w.order p.cells.keys) { p with committer := none }
    (Journal.start store)
  have hx : x = shutdown w (p, Journal.start store) := rfl
  rw [hx, shutdown_apply]
  rcases hr : commitEach .empty (w.order p.cells.keys)
    ({ p with committer := none }, Journal.start store) with ⟨out, p', j⟩
  rw [hr] at hcells
  cases out with
  | fail e => exact e.elim
  | crash => exact .inl ⟨rfl, hcells⟩
  | ok report =>
    have hnodup : (w.order p.cells.keys).Nodup := (w.perm _).nodup_iff.2 p.cells.nodup_keys
    obtain ⟨_, es, hentries, hes⟩ :=
      exists_entries_of_commitEach (p := { p with committer := none }) hkeyed hnodup hr
    refine .inr ⟨report, es, rfl, rfl, hentries, fun a c hc => hes a ?_ c hc⟩
    exact (w.perm _).mem_iff.2 (Table.mem_keys.2 (Table.contains_iff.2 ⟨c, hc⟩))

/-- The session of the first owner was left poisoned, and that of the third one is locked. -/
def crowded : Pool :=
  ((empty.putCell ⟨1, 0⟩ ⟨0, counters, .poisoned, 1⟩).putCell ⟨2, 0⟩
    ⟨1, (Session.empty 0).putBack (dirtyCounter 4), .free, 0⟩).putCell ⟨3, 0⟩
      ⟨2, (Session.empty 0).putBack (dirtyCounter 5), .held, 1⟩

theorem keyed_crowded : crowded.Keyed := by
  have hempty : empty.Keyed := fun _ _ h => nomatch h
  have hcounters : counters.Keyed :=
    (((Session.keyed_empty 0).putBack (dirtyCounter 1)).putBack (dirtyCounter 2)).delete _
  exact ((hempty.putCell _ hcounters).putCell _ ((Session.keyed_empty 0).putBack _)).putCell _
    ((Session.keyed_empty 0).putBack _)

/-- Where one counter cannot be written and another one not be deleted, these two are named. -/
theorem shutdown_accounts_crowded :
    crowded.Keyed ∧ ∃ (report : CommitReport) (es : Affinity → List Entry),
      (shutdown .sorted (crowded, Journal.start refusing)).1 = .ok report ∧
      report.names = [counterId 2, counterId 3] ∧ es ⟨3, 0⟩ = [] ∧
      counters.Accounted report.names (es ⟨1, 0⟩) ∧
      ((Session.empty 0).putBack (dirtyCounter 4)).Accounted report.names (es ⟨2, 0⟩) := by
  obtain ⟨report', hreport', hnames⟩ :
      ∃ report, (shutdown .sorted (crowded, Journal.start refusing)).1 = .ok report ∧
        report.names = [counterId 2, counterId 3] := ⟨_, rfl, rfl⟩
  refine ⟨keyed_crowded, ?_⟩
  obtain ⟨_, _, _, ⟨hcrash, _⟩ | ⟨report, es, hreport, _, _, hes⟩⟩ :=
    shutdown_accounts .sorted keyed_crowded refusing
  · cases hreport'.symm.trans hcrash
  · obtain rfl : report' = report := Outcome.ok.inj (hreport'.symm.trans hreport)
    exact ⟨report', es, hreport, hnames, (hes ⟨3, 0⟩ _ rfl).1 rfl, (hes ⟨1, 0⟩ _ rfl).2 nofun,
      (hes ⟨2, 0⟩ _ rfl).2 nofun⟩

/-- A counter is made and set. -/
def justSet : Session := (Session.run counterCatalog false
  [.create 0 "Counter" (some (counterId 2)), .work (counterId 2) (.set "count" (.int 4))]
  (Session.empty 0, Memory.empty)).1

/-- One session is locked by its owner. In the other one a counter was deleted, brought in again and
set. -/
def unlucky : Pool :=
  (empty.putCell ⟨1, 0⟩ ⟨0, justSet, .held, 1⟩).putCell ⟨2, 0⟩
    ⟨1, (Session.run counterCatalog false broughtBack (Session.empty 0, Memory.empty)).1, .free, 0⟩

/-- Both counters are lost, and none of them is named. -/
theorem shutdown_loses_updates :
    (∃ c o, unlucky.cell? ⟨1, 0⟩ = some c ∧ c.session.object? (counterId 2) = some o ∧
      o.state.dirty.contains 0 = true) ∧
    (∃ c o, unlucky.cell? ⟨2, 0⟩ = some c ∧ c.session.object? (counterId 1) = some o ∧
      o.state.dirty.contains 0 = true) ∧
    ∃ p m, shutdown .sorted (unlucky, Memory.empty) = (.ok ⟨1, 1, 1, []⟩, (p, m)) ∧ p.cells = {} ∧
      m.slots (counterId 1) = {} ∧ m.slots (counterId 2) = {} :=
  ⟨⟨_, _, rfl, rfl, rfl⟩, ⟨_, _, rfl, rfl, rfl⟩, _, _, rfl, rfl, rfl, rfl⟩

end Pool
end ObjectSpace
