import ObjectSpace.Proofs.Codec.Envelope
import ObjectSpace.Proofs.Codec.Payload
import ObjectSpace.Proofs.Object.Marks
import ObjectSpace.Proofs.Object.Staged
import ObjectSpace.Proofs.Reference.Target

/-!
# Reference fields

A reference is checked where it is set, written, read and turned into a proxy, each time in another
way. All of these agree: a field that took an identity gives it back, from memory and from its slot.
-/

namespace ObjectSpace

open Success

namespace Identity

theorem depth_json (id : Identity) : id.json.depth ≤ Json.Raw.maxDepth := by
  have hparts : ∀ m ∈ id.jsonMembers, m.2.depth ≤ 0 := by simp [jsonMembers, Json.depth]
  have hmembers := Json.memberDepth_ofList_le hparts
  simp only [json, Json.object, Json.depth, Json.Raw.maxDepth]
  omega

end Identity

namespace Shape

/-- A reference to objects of the class, with options around it. -/
inductive RefersTo (classId : String) : Shape → Prop
  | reference : RefersTo classId (.reference classId)
  | optional {inner : Shape} (h : RefersTo classId inner) : RefersTo classId (.optional inner)

namespace RefersTo

variable {s : Shape} {classId path : String} {id : Identity}

theorem referencedClass? (h : s.RefersTo classId) : s.referencedClass? = some classId := by
  induction h with
  | reference => rfl
  | optional _ ih => exact ih

/-- An identity is written as its document, if it is valid and of the class. -/
theorem write_ref (h : s.RefersTo classId) {j : Json} (hj : s.write path (.ref id) = .ok j) :
    id.classId = classId ∧ id.validate = .ok () ∧ j = id.json := by
  induction h with
  | reference => exact writeReference_eq_ok.1 hj
  | optional _ ih =>
    have hne : Value.ref id ≠ .null := nofun
    rw [write_optional hne] at hj
    exact ih hj

theorem read_json (h : s.RefersTo classId) (hclass : id.classId = classId)
    (hvalid : id.validate = .ok ()) : s.read path id.json = .ok (.ref id) := by
  induction h with
  | reference =>
    exact readReference_eq_ok.2
      ⟨_, id, rfl, rfl, Identity.ofJsonMembers_jsonMembers id, hclass, hvalid⟩
  | optional _ ih => exact ih

theorem decode_of_encode (h : s.RefersTo classId) {payload : ByteArray}
    (hencode : s.encode path (.ref id) = .ok payload) (q : String) :
    s.decode q payload = .ok (.ref id) := by
  obtain ⟨j, hj, rfl⟩ := map_eq_ok.1 hencode
  obtain ⟨hclass, hvalid, rfl⟩ := h.write_ref hj
  rw [decode_text id.printable_json id.depth_json, h.read_json hclass hvalid]
  rfl

end RefersTo

end Shape

namespace Resident

variable {o o' : Resident} {r : Registry} {name classId : String} {f : Field} {cls : Class}
  {t : Target} {id : Identity}

theorem proxyOf_ref (hc : r.find classId = .ok cls) (hclass : id.classId = classId)
    (hvalid : id.Valid) : proxyOf r classId (.ref id) = .ok (some ⟨id, cls⟩) := by
  subst hclass
  have hnormalize : (Target.value (.ref id)).normalizeFor id.classId = .ok id :=
    Target.normalizeFor_eq_ok.2 ⟨Target.normalize_eq_ok.2 ⟨.value .ref, hvalid⟩, rfl⟩
  refine bind_eq_ok.2 ⟨id, mapError_eq_ok.2 hnormalize, ?_⟩
  exact bind_eq_ok.2 ⟨⟨id, cls⟩, mapError_eq_ok.2 (Registry.materialize_eq hc), rfl⟩

section

variable {σ : Type} [Store σ] {s s' : σ}

/-- Who finds a reference in a field gets the proxy of the object. -/
theorem reference_of_get (hf : o.schema.field? name = some f) (hs : f.shape.RefersTo classId)
    (hc : r.find classId = .ok cls) (hclass : id.classId = classId) (hvalid : id.Valid)
    (hget : get name (o, s) = (.ok (.ref id), (o', s'))) :
    reference r name (o, s) = (.ok (some ⟨id, cls⟩), (o', s')) := by
  have hreferenced : o.referencedClass name = .ok classId := by
    unfold referencedClass field
    rw [hf]
    exact bind_eq_ok.2 ⟨f, rfl, by rw [hs.referencedClass?]; rfl⟩
  unfold reference
  rw [Run.bind_apply]
  dsimp only [Run.getState]
  rw [hreferenced, Run.bind_apply]
  dsimp only [Run.ofExcept, Run.ofOutcome, Outcome.ofExcept]
  rw [Run.bind_apply, hget]
  dsimp only
  rw [proxyOf_ref hc hclass hvalid]
  rfl

theorem get_cached (hf : o.schema.field? name = some f) {v : Value}
    (hv : o.state.cache.get? f.index = some v) : get name (o, s) = (.ok v, (o, s)) := by
  unfold get field getField
  dsimp only
  rw [hf]
  dsimp only
  rw [hv]

theorem get_slot (hf : o.schema.field? name = some f) (hnone : o.state.cache.get? f.index = none)
    {slot : Option ByteArray} (hget : Store.get o.identity f.index s = (.ok slot, s')) {v : Value}
    (hv : Proxy.slotValue f slot = .ok v) :
    get name (o, s) = (.ok v, ({ o with state := o.state.load f.index v }, s')) := by
  unfold get field getField
  dsimp only
  rw [hf]
  dsimp only
  rw [hnone, hget]
  dsimp only
  rw [hv]

/-- At once the reference is in memory. -/
theorem reference_stage (hf : o.schema.field? name = some f) (hs : f.shape.RefersTo classId)
    (hc : r.find classId = .ok cls) (hclass : id.classId = classId) (hvalid : id.Valid)
    (ho : o' = { o with state := o.state.stage f.index (.ref id) }) :
    reference r name (o', s) = (.ok (some ⟨id, cls⟩), (o', s)) := by
  have hf' : o'.schema.field? name = some f := by rw [ho, hf]
  have hcached : o'.state.cache.get? f.index = some (.ref id) := by
    rw [ho]
    exact (Table.get?_insert _ _ _ _).trans (if_pos rfl)
  exact reference_of_get hf' hs hc hclass hvalid (get_cached hf' hcached)

variable [LawfulStore σ]

/-- A flush has put the reference into its slot, where a copy of the object finds it. -/
theorem reference_loaded (hf : o.schema.field? name = some f) (hs : f.shape.RefersTo classId)
    (hc : r.find classId = .ok cls) (hclass : id.classId = classId) (hvalid : id.Valid)
    (ho : o' = { o with state := o.state.stage f.index (.ref id) }) {n : Nat}
    (hflush : (flush (o', s)).1 = .ok n) {later later' : σ}
    (hslots : LawfulStore.slots later o.identity =
      LawfulStore.slots (flush (o', s)).2.2 o.identity)
    {slot : Option ByteArray} (hget : Store.get o.identity f.index later = (.ok slot, later')) :
    (reference r name (loaded o.identity o.schema, later)).1 = .ok (some ⟨id, cls⟩) := by
  have hidentity : o'.identity = o.identity := by rw [ho]
  have hschema : o'.schema = o.schema := by rw [ho]
  have hcached : o'.state.cache.get? f.index = some (.ref id) := by
    rw [ho]
    exact (Table.get?_insert _ _ _ _).trans (if_pos rfl)
  have hdirty : o'.state.dirty.contains f.index = true := by
    rw [ho]
    change Table.contains (o.state.dirty.add f.index) f.index = true
    rw [KeySet.contains_add, decide_eq_true rfl, Bool.true_or]
  obtain ⟨g, payload, hg, hencode, hslot⟩ := exists_slot_of_flush hflush hdirty hcached
  rw [hschema] at hg
  rw [hidentity, ← hslots, ← LawfulStore.get_answer hget] at hslot
  obtain ⟨hmem, hindex⟩ := Class.fieldAt?_eq_some_iff.1 hg
  obtain rfl : g = f := Class.eq_of_index_eq hmem (Class.mem_of_field? hf) hindex
  have hvalue : Proxy.slotValue g slot = .ok (.ref id) := by
    rw [hslot]
    exact hs.decode_of_encode hencode g.name
  have hf' : (loaded o.identity o.schema).schema.field? name = some g := hf
  have hfresh : get name (loaded o.identity o.schema, later) = _ := get_slot hf' rfl hget hvalue
  rw [reference_of_get hf' hs hc hclass hvalid hfresh]

end

variable {σ : Type} [Store σ] [LawfulStore σ]

/-- A field that refers to objects of a class takes the identity of any target that it takes at all.
It gives back the proxy of this identity, and so does a copy of the object that is loaded while the
slots are still those that a flush has left. What is refused changes nothing. -/
theorem reference_kept (hf : o.schema.field? name = some f) (hs : f.shape.RefersTo classId)
    (hc : r.find classId = .ok cls) (t : Target) (store : σ) :
    (∀ id o' store', (Request.setReference name t).run r (o, store) = (.ok id, (o', store')) →
      t.normalize = .ok id ∧
      (Request.reference name).run r (o', store') = (.ok (some ⟨id, cls⟩), (o', store')) ∧
      ∀ n o'' flushed, Request.flush.run r (o', store') = (.ok n, (o'', flushed)) →
        ∀ later : σ, LawfulStore.slots later o.identity = LawfulStore.slots flushed o.identity →
          ∀ slot later', Store.get o.identity f.index later = (.ok slot, later') →
            ((Request.reference name).run r (loaded o.identity o.schema, later)).1 =
              .ok (some ⟨id, cls⟩)) ∧
    ∀ out t', (Request.setReference name t).run r (o, store) = (out, t') →
      (∀ id, out ≠ .ok id) → t' = (o, store) := by
  have hrun : (Request.setReference name t).run r (o, store) =
      match o.setReference name t with
      | .ok (id, o') => (.ok id, (o', store))
      | .error e => (.fail e, (o, store)) := by
    unfold Request.run change Run.onFirst Run.update
    dsimp only
    cases o.setReference name t <;> rfl
  rw [hrun]
  cases hset : o.setReference name t with
  | error e =>
    refine ⟨nofun, ?_⟩
    rintro _ _ ⟨⟩ _
    rfl
  | ok answer =>
    obtain ⟨id, o'⟩ := answer
    refine ⟨?_, fun out _ hout hfails => ?_⟩
    · rintro _ _ _ ⟨⟩
      obtain ⟨g, classId', hg, hreferenced, htarget, ho⟩ := setReference_eq_ok hset
      obtain rfl : g = f := Option.some.inj (hg.symm.trans hf)
      obtain rfl : classId' = classId :=
        Option.some.inj (hreferenced.symm.trans hs.referencedClass?)
      obtain ⟨hid, hclass⟩ := Target.normalizeFor_eq_ok.1 htarget
      have hvalid := (Target.normalize_eq_ok.1 hid).2
      refine ⟨hid, reference_stage hf hs hc hclass hvalid ho, ?_⟩
      intro n o'' flushed hflush later hslots slot later' hget
      have hrun : flush (o', store) = (.ok n, (o'', flushed)) := hflush
      refine reference_loaded hf hs hc hclass hvalid ho (s := store) (n := n) ?_ ?_ hget
      · rw [hrun]
      · rw [hslots, hrun]
    · cases hout
      exact absurd rfl (hfails id)

def nodes : Registry := ⟨Table.empty.insert "Node" node⟩

/-- A new node that refers to another one. -/
def following : Resident :=
  { created (nodeId 1) node with state := (FieldState.ofDefaults node).stage 0 (.ref (nodeId 7)) }

theorem exists_flush_following :
    ∃ n o m, Request.flush.run nodes (following, Memory.empty) = (.ok n, (o, m)) := by
  have hok : (Request.flush.run nodes (following, Memory.empty)).1.isOk = true := by
    decide +kernel
  obtain ⟨n, hn⟩ := Outcome.isOk_iff.1 hok
  exact ⟨n, _, _, Prod.ext hn rfl⟩

/-- A node is made to refer to another one, and then to an object of another class. -/
theorem reference_kept_following :
    (Target.parts "Node" 0 7).normalize = .ok (nodeId 7) ∧
      (Request.reference "next").run nodes (following, Memory.empty) =
        (.ok (some ⟨nodeId 7, node⟩), (following, Memory.empty)) ∧
      (∃ n o m, Request.flush.run nodes (following, Memory.empty) = (.ok n, (o, m)) ∧
        ((Request.reference "next").run nodes (loaded (nodeId 1) node, m)).1 =
          .ok (some ⟨nodeId 7, node⟩)) ∧
      ((Request.setReference "next" (.parts "Edge" 0 7)).run nodes (following, Memory.empty)).2 =
        (following, Memory.empty) := by
  have hfield : node.field? "next" = some (.of "next" 0 (.optional (.reference "Node")) none) := rfl
  have hshape : Shape.RefersTo "Node" (.optional (.reference "Node")) := .optional .reference
  have hfound : nodes.find "Node" = .ok node := rfl
  obtain ⟨hset, _⟩ := reference_kept (o := created (nodeId 1) node) hfield hshape hfound
    (.parts "Node" 0 7) Memory.empty
  obtain ⟨hid, href, hflushed⟩ := hset (nodeId 7) following Memory.empty rfl
  obtain ⟨n, o, m, hflush⟩ := exists_flush_following
  obtain ⟨_, hrefused⟩ := reference_kept (o := following) hfield hshape hfound
    (.parts "Edge" 0 7) Memory.empty
  refine ⟨hid, href, ⟨n, o, m, hflush, hflushed n o m hflush m rfl _ _ rfl⟩, ?_⟩
  exact hrefused _ _ (Prod.ext rfl rfl) nofun

end Resident
end ObjectSpace
