import Mathlib.Logic.Function.Basic
import ObjectSpace.Proofs.Object.Marks
import ObjectSpace.Proofs.Store.Journal
import ObjectSpace.Proofs.Writers.Alone

/-!
# No update is lost

Writers share a store and take turns, one move each. Whatever they write and in whatever order, the
only writes are batches of fields that were set and await to be written, and single fields behind
accessors. So a slot holds what was put last by somebody who had set its field.
-/

namespace ObjectSpace

open Mark (LastSet Fills)

/-! ## Marks on a desk -/

/-- What was marked on the objects before a writer. -/
structure Notes where
  session : Identity → List Mark
  copy : List Mark

namespace Notes

def empty : Notes := ⟨fun _ => [], []⟩

def marks (n : Notes) : Place → List Mark
  | .session id => n.session id
  | .copy => n.copy

def add (n : Notes) (ms : List Mark) : Place → Notes
  | .session id => { n with session := Function.update n.session id (n.session id ++ ms) }
  | .copy => { n with copy := n.copy ++ ms }

theorem add_nil (n : Notes) (p : Place) : n.add [] p = n := by
  cases p with
  | session id =>
    unfold add
    dsimp only
    rw [List.append_nil, Function.update_eq_self]
  | copy =>
    unfold add
    dsimp only
    rw [List.append_nil]

/-- An object that was made or brought in. -/
def clear (n : Notes) (id : Identity) : Notes :=
  { n with session := Function.update n.session id [] }

/-- The notes behind a move of a writer with this desk. -/
def after (n : Notes) (d : Desk) : (m : Move) → Outcome Empty m.Answer → Notes
  | .create _ _ _, .ok (.ok id) => n.clear id
  | .load _ id, .ok (.ok ()) => if d.session.isResident id then n else n.clear id
  | .ask p r, .ok (some (.ok a)) =>
    match d.object? p with
    | some o => n.add (r.marks o.schema a) p
    | none => n
  | .take id, _ => { n with copy := n.session id }
  | .keep, _ =>
    match d.copy with
    | some o => { n with session := Function.update n.session o.identity n.copy }
    | none => n
  | _, _ => n

end Notes

namespace Desk

/-- The notes tell what each object is still to write. -/
structure Noted (d : Desk) (n : Notes) : Prop where
  keyed : d.session.Keyed
  session : ∀ id o, d.session.object? id = some o → o.Noted (n.session id)
  copy : ∀ o, d.copy = some o → o.Noted n.copy

variable {d : Desk} {n : Notes} {o : Resident}

theorem noted_empty (partition : UInt32) : (empty partition).Noted .empty where
  keyed := Session.keyed_empty partition
  session _ _ h := nomatch h
  copy _ h := nomatch h

/-- An object takes its place in the session, and its marks take theirs. -/
theorem Noted.insert (h : d.Noted n) {id : Identity} (hid : o.identity = id) {ms : List Mark}
    (ho : o.Noted ms) (deletions : KeySet Identity) :
    Noted { d with session := { d.session with
        objects := d.session.objects.insert id o, deletions := deletions } }
      { n with session := Function.update n.session id ms } where
  keyed := h.keyed.insert hid deletions
  session id' o' ho' := by
    change (d.session.objects.insert id o).get? id' = some o' at ho'
    rw [Table.get?_insert] at ho'
    by_cases hne : id' = id
    · subst hne
      rw [if_pos rfl] at ho'
      cases ho'
      dsimp only
      rw [Function.update_self]
      exact ho
    · rw [if_neg hne] at ho'
      dsimp only
      rw [Function.update_of_ne hne]
      exact h.session id' o' ho'
  copy := h.copy

/-- An object that nothing is to be written of takes its place. -/
theorem Noted.clear (h : d.Noted n) {id : Identity} (hid : o.identity = id)
    (hclean : ∀ i, o.state.dirty.contains i = false) (deletions : KeySet Identity) :
    Noted { d with session := { d.session with
        objects := d.session.objects.insert id o, deletions := deletions } } (n.clear id) :=
  h.insert hid (Resident.noted_of_clean hclean) deletions

/-- An object that was worked on is put back with the marks of the work. -/
theorem Noted.putBack (h : d.Noted n) {p : Place} (hp : d.object? p = some o) {o' : Resident}
    (hid : o'.identity = o.identity) {ms : List Mark} (ho' : o'.Noted (n.marks p ++ ms)) :
    (d.putBack o' p).Noted (n.add ms p) := by
  cases p with
  | session id =>
    have hid' : o'.identity = id := hid.trans (h.keyed id o hp)
    subst hid'
    exact h.insert rfl ho' d.session.deletions
  | copy =>
    refine ⟨h.keyed, h.session, fun o'' ho'' => ?_⟩
    cases ho''
    exact ho'

end Desk

variable {σ : Type} [Store σ] {d : Desk} {n : Notes} {store : σ} {registry : Registry}
  {localOnly : Bool}

theorem Desk.Noted.noted (h : d.Noted n) {p : Place} {o : Resident} (ho : d.object? p = some o) :
    o.Noted (n.marks p) := by
  cases p with
  | session id => exact h.session id o ho
  | copy => exact h.copy o ho

theorem Desk.Noted.ask (h : d.Noted n) (p : Place) (r : Request) :
    let x := Move.askAt registry p r (d, store)
    x.2.1.Noted (n.after d (.ask p r) x.1) := by
  unfold Move.askAt
  dsimp only
  cases ho : d.object? p with
  | none => exact h
  | some o =>
    have hanswer := (h.noted ho).answer registry r store
    have hchange := r.change (o := o) registry store
    dsimp only
    rcases hr : r.run registry (o, store) with ⟨out, o', store'⟩
    rw [hr] at hanswer hchange
    have hput := h.putBack ho hchange.identity hanswer
    cases out with
    | ok a =>
      have hafter : n.after d (.ask p r) (.ok (some (.ok a))) =
          n.add (r.marks o.schema a) p := by
        unfold Notes.after
        dsimp only
        rw [ho]
      dsimp only
      rw [hafter]
      exact hput
    | fail e => exact n.add_nil p ▸ hput
    | crash => exact n.add_nil p ▸ hput

/-- Whatever a writer does, its notes tell what its objects are still to write. -/
theorem Desk.Noted.move (h : d.Noted n) (m : Move) :
    let x := m.run registry localOnly (d, store)
    x.2.1.Noted (n.after d m x.1) := by
  cases m with
  | look => exact h
  | create fresh classId id? =>
    unfold Move.run
    dsimp only
    cases hs : d.session.create registry localOnly fresh classId id? with
    | error e => exact h
    | ok x =>
      obtain ⟨id, s⟩ := x
      obtain ⟨_, c, _, rfl⟩ := Session.create_eq_ok hs
      exact h.clear (o := .created id c) rfl (fun _ => rfl) _
  | load classId id =>
    unfold Move.run
    dsimp only
    cases hs : d.session.load registry classId id with
    | error e => exact h
    | ok s =>
      dsimp only [Notes.after]
      rcases Session.load_eq_ok hs with ⟨hresident, rfl⟩ | ⟨c, hresident, _, rfl⟩
      · rw [if_pos hresident]
        exact h
      · rw [if_neg (Bool.eq_false_iff.1 hresident)]
        exact h.clear (o := .loaded id c) rfl (fun _ => rfl) _
  | ask p r => exact h.ask p r
  | take id => exact ⟨h.keyed, h.session, h.session id⟩
  | keep =>
    obtain ⟨s, copy⟩ := d
    cases copy with
    | none => exact h
    | some o => exact h.insert rfl (h.copy o rfl) s.deletions
  | write p accessor v =>
    unfold Move.run
    dsimp only
    rcases p.write accessor v store with ⟨out, store'⟩
    cases out <;> exact h

/-! ## Turns -/

structure Writer where
  registry : Registry
  localOnly : Bool
  desk : Desk
  notes : Notes
  rest : Program Unit

namespace Writer

/-- A writer that has yet to begin. -/
def start (registry : Registry) (localOnly : Bool) (partition : UInt32) (program : Program Unit) :
    Writer := ⟨registry, localOnly, .empty partition, .empty, program⟩

def move (w : Writer) (store : σ) : Writer × σ :=
  match w.rest with
  | .perform m next =>
    let (out, (d, store)) := m.run w.registry w.localOnly (w.desk, store)
    let rest := match out with
      | .ok a => next a
      | .crash => .crash
    ({ w with desk := d, notes := w.notes.after w.desk m out, rest := rest }, store)
  | _ => (w, store)

/-- What the next move of the writer asks of the store: a flush asks for the fields that were set on
its object and await to be written, if there are any and they can be encoded, and a write through an
accessor asks for its one field. -/
inductive Asks (w : Writer) : Write → Prop
  | flush {p : Place} {next : Option (Except StateError Nat) → Program Unit} {o : Resident}
      {batch : Slots} (hrest : w.rest = .perform (.ask p .flush) next)
      (ho : w.desk.object? p = some o) (hset : ∃ i v, LastSet i v (w.notes.marks p))
      (hbatch : Fills o.schema (w.notes.marks p) batch) : Asks w (.put o.identity batch)
  | access {p : Proxy} {accessor : String} {v x : Value} {f : Field} {payload : ByteArray}
      {next : Except ProxyError Value → Program Unit}
      (hrest : w.rest = .perform (.write p accessor v) next)
      (hf : p.accessed accessor .write = .ok f) (hx : f.shape.coerce f.name v = .ok x)
      (hpayload : f.shape.encode f.name x = .ok payload) :
      Asks w (.put p.identity (Table.empty.insert f.index payload))

variable {w : Writer}

theorem Asks.isPut {write : Write} (h : w.Asks write) (out : Outcome StoreError Unit) :
    Entry.IsPut ⟨write, out⟩ := by
  cases h with
  | flush => exact ⟨_, _, rfl⟩
  | access => exact ⟨_, _, rfl⟩

theorem noted_move (h : w.desk.Noted w.notes) (store : σ) :
    (w.move store).1.desk.Noted (w.move store).1.notes := by
  unfold move
  split
  case h_1 m next _ => exact Desk.Noted.move h m
  case h_2 => exact h

theorem store_move {m : Move} {next : m.Answer → Program Unit} (hrest : w.rest = .perform m next)
    (store : σ) :
    (w.move store).2 = (m.run w.registry w.localOnly (w.desk, store)).2.2 := by
  unfold move
  rw [hrest]

theorem store_askAt (d : Desk) (registry : Registry) (p : Place) (r : Request) (store : σ) :
    (Move.askAt registry p r (d, store)).2.2 = match d.object? p with
      | none => store
      | some o => (r.run registry (o, store)).2.2 := by
  unfold Move.askAt
  dsimp only
  cases d.object? p with
  | none => rfl
  | some o =>
    dsimp only
    rcases r.run registry (o, store) with ⟨out, o', store'⟩
    cases out <;> rfl

theorem store_write (p : Proxy) (accessor : String) (v : Value) (store : σ) :
    (Move.run w.registry w.localOnly (.write p accessor v) (w.desk, store)).2.2 =
      (p.write accessor v store).2 := by
  unfold Move.run
  dsimp only
  rcases p.write accessor v store with ⟨out, store'⟩
  cases out <;> rfl

/-- What the writer asks for is written by its next move. -/
theorem journal_of_asks (h : w.desk.Noted w.notes) {write : Write} (hasks : w.Asks write)
    (j : Journal σ) : (w.move j).2 = j.write write := by
  cases hasks with
  | @flush p next o batch hrest ho hset hbatch =>
    have hnoted := h.noted ho
    rw [store_move hrest]
    change (Move.askAt w.registry p .flush (w.desk, j)).2.2 = _
    rw [store_askAt, ho]
    change (Resident.flush (o, j)).2.2 = _
    rw [Resident.flush_put (hnoted.isDirty_iff.2 hset) (hnoted.batch_eq_ok_iff.2 hbatch),
      Journal.put_apply]
    cases (Store.put o.identity batch j.behind).1 <;> rfl
  | @access p accessor v x f payload next hrest hf hx hpayload =>
    rw [store_move hrest, store_write, Proxy.write_apply, hf]
    dsimp only
    rw [hx]
    dsimp only
    rw [hpayload]
    dsimp only
    rw [Journal.put_apply]
    cases (Store.put p.identity (Table.empty.insert f.index payload) j.behind).1 <;> rfl

theorem looks_flush {o : Resident} {j : Journal σ}
    (hnot : ∀ batch, o.isDirty = true → o.batch ≠ .ok batch) :
    Store.Looks j (Resident.flush (o, j)).2.2 := by
  rcases o.write?_cases with ⟨hd, _⟩ | ⟨e, hd, hb, _⟩ | ⟨batch, hd, hb, _⟩
  · rw [Resident.flush_of_clean hd]
    exact .none
  · rw [Resident.flush_of_not_encoded hd hb]
    exact .none
  · exact absurd hb (hnot batch hd)

theorem looks_access {p : Proxy} {accessor : String} {v : Value} {j : Journal σ}
    (hnot : ∀ f x payload, p.accessed accessor .write = .ok f → f.shape.coerce f.name v = .ok x →
      f.shape.encode f.name x ≠ .ok payload) :
    Store.Looks j (p.write accessor v j).2 := by
  rw [Proxy.write_apply]
  cases hf : p.accessed accessor .write with
  | error e => exact .none
  | ok f =>
    dsimp only
    cases hx : f.shape.coerce f.name v with
    | error m => exact .none
    | ok x =>
      dsimp only
      cases hpayload : f.shape.encode f.name x with
      | error e => exact .none
      | ok payload => exact absurd hpayload (hnot f x payload hf hx)

theorem looks_ask (h : w.desk.Noted w.notes) (hnot : ∀ write, ¬w.Asks write) {p : Place}
    {r : Request} {next : Option (Except StateError r.Answer) → Program Unit}
    (hrest : w.rest = .perform (.ask p r) next) (j : Journal σ) :
    Store.Looks j (Move.askAt w.registry p r (w.desk, j)).2.2 := by
  rw [store_askAt]
  cases ho : w.desk.object? p with
  | none => exact .none
  | some o =>
    by_cases hr : r = .flush
    · subst hr
      have hnoted := h.noted ho
      exact looks_flush fun batch hd hb =>
        hnot _ (.flush hrest ho (hnoted.isDirty_iff.1 hd) (hnoted.batch_eq_ok_iff.1 hb))
    · exact Request.looks_store w.registry hr o j

/-- A move that asks for no write looks into the store once at most. -/
theorem looks_of_not_asks (h : w.desk.Noted w.notes) (hnot : ∀ write, ¬w.Asks write)
    (j : Journal σ) : Store.Looks j (w.move j).2 := by
  cases hrest : w.rest with
  | done _ | fail _ | crash =>
    unfold move
    rw [hrest]
    exact .none
  | perform m next =>
    rw [store_move hrest]
    cases m with
    | look => exact .none
    | create fresh classId id? =>
      unfold Move.run
      dsimp only
      cases w.desk.session.create w.registry w.localOnly fresh classId id? <;> exact .none
    | load classId id =>
      unfold Move.run
      dsimp only
      cases w.desk.session.load w.registry classId id <;> exact .none
    | ask p r => exact looks_ask h hnot hrest j
    | take id => exact .none
    | keep =>
      unfold Move.run
      dsimp only
      cases w.desk.copy <;> exact .none
    | write p accessor v =>
      rw [store_write]
      exact looks_access fun f x payload hf hx hpayload => hnot _ (.access hrest hf hx hpayload)

end Writer

/-- Writers that share a store. -/
structure Writers (ι σ : Type) where
  writers : ι → Writer
  journal : Journal σ

namespace Writers

variable {ι : Type} [DecidableEq ι]

def turn (t : Writers ι σ) (i : ι) : Writers ι σ :=
  let (w, j) := (t.writers i).move t.journal
  ⟨Function.update t.writers i w, j⟩

def run (turns : List ι) (t : Writers ι σ) : Writers ι σ := turns.foldl turn t

/-- Writers that have yet to begin, in front of a store. -/
def start (writers : ι → Writer) (s : σ) : Writers ι σ := ⟨writers, .start s⟩

/-- What holds of all writers and their journal at any time. -/
structure Sound [LawfulStore σ] (s : σ) (t : Writers ι σ) : Prop where
  noted : ∀ i, (t.writers i).desk.Noted (t.writers i).notes
  faithful : Journal.Faithful s t.journal
  puts : ∀ e ∈ t.journal.entries, e.IsPut

variable [LawfulStore σ] {s : σ} {t : Writers ι σ}

theorem Sound.turn (h : Sound s t) (i : ι) : Sound s (t.turn i) := by
  have hnoted : ∀ k, ((t.turn i).writers k).desk.Noted ((t.turn i).writers k).notes := by
    intro k
    unfold Writers.turn
    dsimp only
    by_cases hk : k = i
    · subst hk
      rw [Function.update_self]
      exact Writer.noted_move (h.noted k) t.journal
    · rw [Function.update_of_ne hk]
      exact h.noted k
  have hjournal : Journal.Faithful s (t.turn i).journal ∧
      ∀ e ∈ (t.turn i).journal.entries, e.IsPut := by
    by_cases hasks : ∃ write, (t.writers i).Asks write
    · obtain ⟨write, hasks⟩ := hasks
      have hj : (t.turn i).journal = t.journal.write write :=
        Writer.journal_of_asks (h.noted i) hasks t.journal
      rw [hj]
      refine ⟨h.faithful.write write, fun e he => ?_⟩
      rcases List.mem_append.1 he with he | he
      · exact h.puts e he
      · rw [List.mem_singleton.1 he]
        exact hasks.isPut _
    · have hlooks : Store.Looks t.journal (t.turn i).journal :=
        Writer.looks_of_not_asks (h.noted i) (not_exists.1 hasks) t.journal
      generalize (t.turn i).journal = j at hlooks
      cases hlooks with
      | none => exact ⟨h.faithful, h.puts⟩
      | get id i => exact ⟨h.faithful.get id i, h.puts⟩
  exact ⟨hnoted, hjournal.1, hjournal.2⟩

theorem Sound.run (h : Sound s t) (turns : List ι) : Sound s (t.run turns) := by
  induction turns generalizing t with
  | nil => exact h
  | cons i turns ih => exact ih (h.turn i)

/-- Whatever writers do, and in whatever order they take their turns, a slot holds what was put into
it last, or else what it held at first. The next turn of any writer puts what the writer asks for: of
an object exactly the fields that were set since its last flush and not forgotten, or the one field
behind an accessor. If it asks for nothing it looks into the store once at most. A writer that is
left alone does what the session, the worker of a call or the proxy does. -/
theorem slots_hold_last_update (registry : ι → Registry) (localOnly : ι → Bool)
    (partition : ι → UInt32) (program : ι → Program Unit) (s : σ) (turns : List ι) :
    let t := run turns
      (start (fun i => .start (registry i) (localOnly i) (partition i) (program i)) s)
    (∀ id i, (LawfulStore.slots t.journal.behind id).get? i =
      (Entry.lastPayload t.journal.entries id i).or ((LawfulStore.slots s id).get? i)) ∧
    (∀ k, (∀ write, (t.writers k).Asks write → (t.turn k).journal = t.journal.write write) ∧
      ((∀ write, ¬(t.writers k).Asks write) → Store.Looks t.journal (t.turn k).journal)) ∧
    Program.LeftAlone σ := by
  have hsound := Sound.run (s := s) (t := start (fun i => .start (registry i) (localOnly i)
    (partition i) (program i)) s)
      ⟨fun i => Desk.noted_empty (partition i), Journal.faithful_start s,
        by simp [start, Journal.start]⟩ turns
  refine ⟨fun id i => ?_, fun k => ?_, Program.leftAlone⟩
  · rw [hsound.faithful id]
    exact Entry.get?_foldl_replay hsound.puts id i _
  · exact ⟨fun _ hasks => Writer.journal_of_asks (hsound.noted k) hasks _,
      fun hnot => Writer.looks_of_not_asks (hsound.noted k) hnot _⟩

end Writers
end ObjectSpace
