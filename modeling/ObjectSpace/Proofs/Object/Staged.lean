import ObjectSpace.Proofs.Codec.Canonical
import ObjectSpace.Proofs.Codec.Writable
import ObjectSpace.Proofs.Object.Change
import ObjectSpace.Proofs.Object.Flush
import ObjectSpace.Store.Memory

/-!
# Staged values

A field becomes dirty by taking a coerced value, so whatever is done to an object, its dirty fields
hold canonical values. A flush then asks the store for its batch and fails only where the store
does, unless one of these values refuses to be written.
-/

namespace ObjectSpace

open Success

namespace Resident

/-- Every dirty field is declared and has a canonical value in memory. -/
def Staged (o : Resident) : Prop := ∀ i, o.state.dirty.contains i = true →
  ∃ f v, o.schema.fieldAt? i = some f ∧ o.state.cache.get? i = some v ∧ f.shape.Canonical v

variable {o o' : Resident}

theorem staged_of_clean (h : ∀ i, o.state.dirty.contains i = false) : o.Staged := by
  intro i hi
  rw [h i] at hi
  cases hi

theorem Staged.change (h : o.Staged) (hproper : ∀ f ∈ o.schema.fields, f.shape.Proper)
    (hchange : Change o o') : o'.Staged := by
  cases hchange with
  | read hread =>
    intro i hi
    rw [hread.dirty] at hi
    obtain ⟨g, w, hg, hw, hcanonical⟩ := h i hi
    exact ⟨g, w, hread.schema ▸ hg, hread.cached hw, hcanonical⟩
  | @stage f v c hf hc =>
    intro i hi
    change Table.contains (o.state.dirty.add f.index) i = true at hi
    rw [KeySet.contains_add, Bool.or_eq_true] at hi
    change ∃ g w, o.schema.fieldAt? i = some g ∧
      (o.state.cache.insert f.index c).get? i = some w ∧ _
    by_cases hif : i = f.index
    · refine ⟨f, c, Class.fieldAt?_eq_some_iff.2 ⟨hf, hif.symm⟩, ?_,
        Shape.canonical_of_coerce (hproper f hf) hc⟩
      rw [Table.get?_insert, if_pos hif]
    · rw [decide_eq_false hif] at hi
      obtain ⟨g, w, hg, hw, hcanonical⟩ := h i (hi.resolve_left (by simp))
      refine ⟨g, w, hg, ?_, hcanonical⟩
      rw [Table.get?_insert, if_neg hif, hw]
  | evict j =>
    intro i hi
    change Table.contains (Table.erase o.state.dirty j) i = true at hi
    rw [KeySet.contains_erase, Bool.and_eq_true, Bool.not_eq_true', decide_eq_false_iff_not] at hi
    obtain ⟨g, w, hg, hw, hcanonical⟩ := h i hi.2
    refine ⟨g, w, hg, ?_, hcanonical⟩
    change (o.state.cache.erase j).get? i = some w
    rw [Table.get?_erase_eq, if_neg hi.1, hw]
  | settle hb =>
    refine staged_of_clean fun i => ?_
    rw [dirty_settle hb]
    rfl

theorem Staged.changes (h : o.Staged) (hproper : ∀ f ∈ o.schema.fields, f.shape.Proper)
    (hchanges : Changes o o') : o'.Staged := by
  have hboth := hchanges.keeps (p := fun x => x.schema = o.schema ∧ x.Staged)
    (fun x y hc ⟨hschema, hx⟩ =>
      ⟨hc.schema.trans hschema, hx.change (hschema ▸ hproper) hc⟩) ⟨rfl, h⟩
  exact hboth.2

/-- The batch exists if every staged value can be written. -/
theorem Staged.exists_batch (h : o.Staged)
    (hclear : ∀ i f, o.state.dirty.contains i = true → o.schema.fieldAt? i = some f →
      f.shape.Unobstructed (o.cached i)) : ∃ b, o.batch = .ok b := by
  refine Resident.exists_batch fun i v hv => ?_
  rw [get?_pending] at hv
  split at hv
  case isFalse => cases hv
  case isTrue hi =>
    obtain rfl : o.cached i = v := Option.some.inj hv
    obtain ⟨f, v, hf, hv, hcanonical⟩ := h i hi
    have hcached : o.cached i = v := by
      unfold cached
      rw [hv]
      rfl
    obtain ⟨j, hj⟩ := (Shape.writable_iff hcanonical).2 (hcached ▸ hclear i f hi hf)
    exact ⟨f, j.text.toUTF8, hf, hcached ▸ map_eq_ok.2 ⟨j, hj f.name, rfl⟩⟩

variable {σ : Type} [Store σ]

/-- The object and the store behind some requests, whether they succeed or not. -/
def run (registry : Registry) (requests : List Request) (t : Resident × σ) : Resident × σ :=
  requests.foldl (fun t r => (r.run registry t).2) t

theorem changes_run (registry : Registry) (requests : List Request) (t : Resident × σ) :
    Changes t.1 (run registry requests t).1 := by
  induction requests generalizing t with
  | nil => exact .refl
  | cons r requests ih => exact .head (r.change registry t.2) (ih (r.run registry t).2)

/-- Whatever was done to a new or loaded object, its batch exists, and a flush fails only with the
failure of the store, unless a staged value holds a reference that is not valid or a value of a
union that its alternatives do not tell apart. -/
theorem flush_fails_in_store (registry : Registry) (c : Class)
    (hproper : ∀ f ∈ c.fields, f.shape.Proper) (id : Identity) (store : σ) {start : Resident}
    (hstart : start = created id c ∨ start = loaded id c) (requests : List Request)
    {o : Resident} {store' : σ} (hrun : run registry requests (start, store) = (o, store'))
    (hclear : ∀ i f, o.state.dirty.contains i = true → c.fieldAt? i = some f →
      f.shape.Unobstructed (o.cached i)) :
    ∃ b, o.batch = .ok b ∧ b.keys = o.state.dirty.keys ∧
      ∀ e, (flush (o, store')).1 = .fail e →
        ∃ failure, (Store.put id b store').1 = .fail failure ∧ e = .store failure := by
  have hchanges := changes_run registry requests (start, store)
  rw [hrun] at hchanges
  have hidentity : o.identity = id := by
    rw [hchanges.identity]
    rcases hstart with rfl | rfl <;> rfl
  have hschema : o.schema = c := by
    rw [hchanges.schema]
    rcases hstart with rfl | rfl <;> rfl
  have hstaged : start.Staged := by
    refine staged_of_clean fun i => ?_
    rcases hstart with rfl | rfl <;> rfl
  have hfields : ∀ f ∈ start.schema.fields, f.shape.Proper := by
    rcases hstart with rfl | rfl <;> exact hproper
  obtain ⟨b, hb⟩ := (hstaged.changes hfields hchanges).exists_batch (hschema ▸ hclear)
  refine ⟨b, hb, keys_batch hb, fun e he => ?_⟩
  cases hd : o.isDirty with
  | false =>
    rw [flush_of_clean hd] at he
    cases he
  | true =>
    rw [flush_put hd hb, hidentity] at he
    rcases hput : Store.put id b store' with ⟨out, store''⟩
    rw [hput] at he
    cases out with
    | ok u => cases he
    | fail failure =>
      cases he
      exact ⟨failure, rfl, rfl⟩
    | crash => cases he

/-- Nodes are counted, and may refer to another node. -/
def node : Class :=
  ⟨⟨"Node", [.of "next" 0 (.optional (.reference "Node")) none, .of "count" 1 .int none], [], []⟩,
    by decide⟩

def nodeId (n : UInt64) : Identity := ⟨"Node", 0, n⟩

theorem proper_node : ∀ f ∈ node.fields, f.shape.Proper := by
  intro f hf
  have hperm : node.fields.Perm node.declaration.fields := Ordered.sort_perm _
  have hmem := hperm.mem_iff.1 hf
  change f ∈ [_, _] at hmem
  simp only [List.mem_cons, List.not_mem_nil, or_false] at hmem
  rcases hmem with rfl | rfl
  · intro name declared hp
    cases hp with
    | optional hp => cases hp
  · exact .of_int

/-- A node is counted by a text, and made to refer to another node. -/
def linked : List Request :=
  [.set "count" (.str "5"), .setReference "next" (.live (nodeId 7))]

theorem flush_fails_in_store_linked :
    (∀ f ∈ node.fields, f.shape.Proper) ∧
    ∃ o store, run .empty linked (created (nodeId 1) node, Memory.empty) = (o, store) ∧
      (∀ i f, o.state.dirty.contains i = true → node.fieldAt? i = some f →
        f.shape.Unobstructed (o.cached i)) ∧
      ∃ b, o.batch = .ok b ∧ b.keys = o.state.dirty.keys ∧
        ∀ e, (flush (o, store)).1 = .fail e →
          ∃ failure, (Store.put (nodeId 1) b store).1 = .fail failure ∧ e = .store failure := by
  rcases hrun : run .empty linked (created (nodeId 1) node, Memory.empty) with ⟨o, store⟩
  have ho : o = (run .empty linked (created (nodeId 1) node, Memory.empty)).1 := by rw [hrun]
  have hclear : ∀ i f, o.state.dirty.contains i = true → node.fieldAt? i = some f →
      f.shape.Unobstructed (o.cached i) := by
    intro i f hi hf
    have hkeys : o.state.dirty.keys = [0, 1] := by
      rw [ho]
      rfl
    have hmem := Table.mem_keys.2 hi
    rw [hkeys] at hmem
    simp only [List.mem_cons, List.not_mem_nil, or_false] at hmem
    rcases hmem with rfl | rfl
    · have hcached : o.cached 0 = .ref (nodeId 7) := by
        rw [ho]
        rfl
      cases hf
      rw [hcached]
      constructor
      · intro classId id hat
        cases hat with
        | optional _ hat =>
          cases hat
          rfl
      · intro alternatives x hat
        cases hat with
        | optional _ hat => cases hat
    · have hcached : o.cached 1 = .int 5 := by
        rw [ho]
        rfl
      cases hf
      rw [hcached]
      constructor
      · intro classId id hat
        cases hat
      · intro alternatives x hat
        cases hat
  exact ⟨proper_node, o, store, rfl, hclear, flush_fails_in_store .empty node proper_node
    (nodeId 1) Memory.empty (.inl rfl) linked hrun hclear⟩

/-- A node is counted, and made to refer to a node whose number is too large to be written. -/
def linkedTooFar : List Request :=
  [.set "count" (.int 5), .set "next" (.ref (nodeId 9223372036854775808))]

/-- The reference is accepted, but then no field of the node can be flushed. -/
theorem flush_fails_before_store :
    ∃ o m, run .empty linkedTooFar (created (nodeId 1) node, Memory.empty) = (o, Memory.empty) ∧
      o.state.dirty.keys = [0, 1] ∧
      flush (o, Memory.empty) = (.fail (.codec (.mismatch m)), (o, Memory.empty)) := by
  rcases hrun : run .empty linkedTooFar (created (nodeId 1) node, Memory.empty) with ⟨o, store⟩
  have ho : o = (run .empty linkedTooFar (created (nodeId 1) node, Memory.empty)).1 := by rw [hrun]
  have hstore : store = Memory.empty := by
    change (o, store).2 = _
    rw [← hrun]
    rfl
  have hrefused : ∃ m, o.batch = .error (.codec (.mismatch m)) := by
    rw [ho]
    exact ⟨_, rfl⟩
  have hdirty : o.isDirty = true := by
    rw [ho]
    rfl
  obtain ⟨m, hb⟩ := hrefused
  refine ⟨o, m, by rw [hstore], ?_, flush_of_not_encoded hdirty hb⟩
  rw [ho]
  rfl

end Resident
end ObjectSpace
