import ObjectSpace.Proofs.Store.Related
import ObjectSpace.Proofs.Store.Write

/-!
# Journals

A journal notes every write that its store was asked for, and what came of it. It answers as the
store behind it does, and what that store holds follows from the journal: the writes that were
taken, one after the other, on what it held before. So the slots of an object can be tracked,
whether they are looked up in a store or made from a journal.
-/

namespace ObjectSpace

/-- A write, and what came of it. -/
structure Entry where
  write : Write
  outcome : Outcome StoreError Unit

structure Journal (σ : Type) where
  behind : σ
  entries : List Entry

namespace Entry

/-- The slots of an object behind the entry. A write that was not taken changes nothing. -/
def replay (id : Identity) (slots : Slots) (e : Entry) : Slots :=
  if e.outcome.isOk = true ∧ e.write.identity = id then e.write.apply slots else slots

/-- What the entry put into a slot. -/
def payload? (id : Identity) (i : UInt32) (e : Entry) : Option ByteArray :=
  match e with
  | ⟨.put id' batch, .ok ()⟩ => if id' = id then batch.get? i else none
  | _ => none

/-- What was put into a slot last. -/
def lastPayload (es : List Entry) (id : Identity) (i : UInt32) : Option ByteArray :=
  es.reverse.findSome? (payload? id i)

def IsPut (e : Entry) : Prop := ∃ id batch, e.write = .put id batch

theorem get?_replay {e : Entry} (h : e.IsPut) (id : Identity) (i : UInt32) (slots : Slots) :
    (e.replay id slots).get? i = (e.payload? id i).or (slots.get? i) := by
  obtain ⟨w, out⟩ := e
  obtain ⟨id', batch, rfl⟩ := h
  unfold replay payload?
  cases out with
  | ok u =>
    by_cases hid : id' = id
    · rw [if_pos ⟨rfl, hid⟩]
      simp only [hid, if_true]
      exact Table.get?_merge _ _ _
    · rw [if_neg fun h => hid h.2]
      simp only [hid, if_false, Option.none_or]
  | fail err => rfl
  | crash => rfl

/-- Where nothing was deleted, a slot holds what was put into it last. -/
theorem get?_foldl_replay {es : List Entry} (h : ∀ e ∈ es, e.IsPut) (id : Identity) (i : UInt32)
    (slots : Slots) :
    (es.foldl (replay id) slots).get? i = (lastPayload es id i).or (slots.get? i) := by
  induction es generalizing slots with
  | nil => rfl
  | cons e es ih =>
    obtain ⟨he, hes⟩ := List.forall_mem_cons.1 h
    unfold lastPayload
    rw [List.foldl_cons, ih hes, get?_replay he, List.reverse_cons, List.findSome?_append,
      List.findSome?_singleton, Option.or_assoc]
    rfl

end Entry

variable {σ : Type} [Store σ]

theorem Write.slots_after [LawfulStore σ] (w : Write) (s : σ) (id : Identity) :
    LawfulStore.slots (w.after s) id =
      Entry.replay id (LawfulStore.slots s id) ⟨w, (w.perform s).1⟩ := by
  unfold Entry.replay
  dsimp only
  by_cases hid : w.identity = id
  · subst hid
    cases hw : w.succeeds s with
    | true =>
      rw [if_pos ⟨hw, rfl⟩]
      exact slots_after_of_succeeds hw
    | false =>
      rw [if_neg fun hok => Bool.eq_false_iff.1 hw hok.1, slots_after_of_failed hw]
  · rw [if_neg fun hok => hid hok.2]
    exact slots_after_of_ne (Ne.symm hid)

theorem Write.after_delete (id : Identity) (s : σ) :
    (delete id).after s = (Store.delete id s).2 := by
  unfold after
  rw [perform_delete]
  rcases Store.delete id s with ⟨out, s'⟩
  cases out <;> rfl

namespace Store

/-- What is taken for the slots of an object changes with the writes to it that are taken. -/
structure Tracks (id : Identity) (held : σ → Slots) : Prop where
  get (id' : Identity) (i : UInt32) (s : σ) : held (Store.get id' i s).2 = held s
  write (w : Write) (s : σ) : held (w.after s) = Entry.replay id (held s) ⟨w, (w.perform s).1⟩

theorem tracks_slots [LawfulStore σ] (id : Identity) :
    Tracks id fun s : σ => LawfulStore.slots s id where
  get _ _ _ := congrFun (LawfulStore.get_slots rfl) id
  write w s := w.slots_after s id

namespace Tracks

variable {id : Identity} {held : σ → Slots}

theorem put_ok (h : Tracks id held) {batch : Slots} {s s' : σ}
    (hs : Store.put id batch s = (.ok (), s')) : held s' = (held s).merge batch := by
  have hwrite := h.write (.put id batch) s
  rw [Write.after, Write.perform_put, hs] at hwrite
  exact hwrite.trans (if_pos ⟨rfl, rfl⟩)

theorem put_failed (h : Tracks id held) {batch : Slots} {s s' : σ} {out : Outcome StoreError Unit}
    (hs : Store.put id batch s = (out, s')) (hout : out.isOk = false) : held s' = held s := by
  have hwrite := h.write (.put id batch) s
  rw [Write.after, Write.perform_put, hs] at hwrite
  exact hwrite.trans (if_neg fun hok => Bool.eq_false_iff.1 hout hok.1)

theorem delete (h : Tracks id held) {s s' : σ} {existed : Bool}
    (hs : Store.delete id s = (.ok existed, s')) : held s' = {} := by
  have hwrite := h.write (.delete id) s
  rw [Write.after_delete, Write.perform_delete, hs] at hwrite
  exact hwrite.trans (if_pos ⟨rfl, rfl⟩)

theorem write_of_ne (h : Tracks id held) {w : Write} (hne : w.identity ≠ id) (s : σ) :
    held (w.after s) = held s :=
  (h.write w s).trans (if_neg fun hok => hne hok.2)

/-- What holds of the slots of an object is kept by work on others. -/
theorem others (h : Tracks id held) (q : Slots → Prop) :
    Related (· ≠ id) (Kept fun s => q (held s)) := by
  refine related_kept (fun id' i s _ hq => ?_) (fun id' batch s hne hq => ?_)
    fun id' s hne hq => ?_
  · rwa [h.get]
  · exact (h.write_of_ne (w := .put id' batch) hne s).symm ▸ hq
  · rw [← Write.after_delete]
    exact (h.write_of_ne (w := .delete id') hne s).symm ▸ hq

end Tracks
end Store

namespace Journal

def start (s : σ) : Journal σ := ⟨s, []⟩

/-- The journal behind a write. -/
def write (w : Write) (j : Journal σ) : Journal σ :=
  ⟨w.after j.behind, j.entries ++ [⟨w, (w.perform j.behind).1⟩]⟩

instance : Store (Journal σ) where
  get id i := fun j =>
    let (out, s) := Store.get id i j.behind
    (out, { j with behind := s })
  put id batch := fun j => ((Store.put id batch j.behind).1, j.write (.put id batch))
  delete id := fun j => ((Store.delete id j.behind).1, j.write (.delete id))

theorem put_apply (id : Identity) (batch : Slots) (j : Journal σ) :
    Store.put id batch j = ((Store.put id batch j.behind).1, j.write (.put id batch)) := rfl

theorem delete_apply (id : Identity) (j : Journal σ) :
    Store.delete id j = ((Store.delete id j.behind).1, j.write (.delete id)) := rfl

/-- It answers as the store behind it. -/
theorem related_behind :
    Store.Related (fun _ => True) fun (s : σ) (j : Journal σ) => j.behind = s where
  get _ _ := by
    rintro _ j rfl
    exact ⟨rfl, rfl⟩
  put _ _ := by
    rintro _ j rfl
    exact ⟨rfl, rfl⟩
  delete _ := by
    rintro _ j rfl
    exact ⟨rfl, Write.after_delete _ j.behind⟩

/-- What was noted before makes no difference. -/
theorem related_after (before : List Entry) : Store.Related (fun _ => True)
    fun j j' : Journal σ => j' = ⟨j.behind, before ++ j.entries⟩ where
  get _ _ := by
    rintro j _ rfl
    exact ⟨rfl, rfl⟩
  put _ batch := by
    rintro j _ rfl
    exact ⟨rfl, congrArg (Journal.mk _) (List.append_assoc _ _ _)⟩
  delete _ := by
    rintro j _ rfl
    exact ⟨rfl, congrArg (Journal.mk _) (List.append_assoc _ _ _)⟩

theorem perform_fst (w : Write) (j : Journal σ) : (w.perform j).1 = (w.perform j.behind).1 := by
  cases w with
  | put id batch => rfl
  | delete id =>
    rw [Write.perform_delete, Write.perform_delete, delete_apply]
    rcases Store.delete id j.behind with ⟨out, s⟩
    cases out <;> rfl

theorem after_eq_write (w : Write) (j : Journal σ) : w.after j = j.write w := by
  cases w with
  | put id batch => rfl
  | delete id => exact Write.after_delete id j

/-- The slots of an object as its journal makes them from any others. -/
theorem tracks_replay (id : Identity) (slots : Slots) :
    Store.Tracks id fun j : Journal σ => j.entries.foldl (Entry.replay id) slots where
  get _ _ _ := rfl
  write w j := by
    rw [after_eq_write, perform_fst]
    exact List.foldl_append

variable [LawfulStore σ]

/-- The store holds what the entries have made of the slots that it began with. -/
def Faithful (start : σ) (j : Journal σ) : Prop :=
  ∀ id, LawfulStore.slots j.behind id =
    j.entries.foldl (Entry.replay id) (LawfulStore.slots start id)

theorem faithful_start (s : σ) : Faithful s (start s) := fun _ => rfl

theorem Faithful.get {s : σ} {j : Journal σ} (h : Faithful s j) (id : Identity) (i : UInt32) :
    Faithful s (Store.get id i j).2 := by
  intro id'
  have hslots : LawfulStore.slots (Store.get id i j.behind).2 = LawfulStore.slots j.behind :=
    LawfulStore.get_slots rfl
  exact (congrFun hslots id').trans (h id')

theorem Faithful.write {s : σ} {j : Journal σ} (h : Faithful s j) (w : Write) :
    Faithful s (j.write w) := by
  intro id
  unfold Journal.write
  rw [List.foldl_append, ← h id]
  exact w.slots_after j.behind id

/-- No operation leaves the store with anything else than its journal says. -/
theorem related_faithful (s : σ) :
    Store.Related (fun _ => True) (Store.Kept (Faithful s)) :=
  Store.related_kept (fun id i _ _ h => h.get id i) (fun id batch _ _ h => h.write (.put id batch))
    fun id _ _ h => h.write (.delete id)

end Journal
end ObjectSpace
