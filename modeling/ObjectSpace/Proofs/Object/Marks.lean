import Mathlib.Data.List.Induction
import ObjectSpace.Proofs.Object.Over
import ObjectSpace.Proofs.Object.WriteBack

/-!
# Marks on an object

Whoever works on an object can mark what was done: that a field was set, that it was forgotten, or
that the object was flushed. What the object is still to write can be told from the marks alone.
-/

namespace ObjectSpace

/-- What was done to an object. -/
inductive Mark where
  | set (i : UInt32) (v : Value)
  | forget (i : UInt32)
  | flush

namespace Mark

def apply (t : Table UInt32 Value) : Mark → Table UInt32 Value
  | set i v => t.insert i v
  | forget i => t.erase i
  | flush => {}

/-- The fields that were set since the last flush and not forgotten, with their last values. -/
def awaiting (ms : List Mark) : Table UInt32 Value := ms.foldl apply {}

theorem awaiting_append (ms ms' : List Mark) :
    awaiting (ms ++ ms') = ms'.foldl apply (awaiting ms) := List.foldl_append

/-- The mark is about this field. -/
def Concerns (i : UInt32) : Mark → Prop
  | set j _ | forget j => j = i
  | flush => True

/-- The field was set to this value, and no later mark is about it. -/
def LastSet (i : UInt32) (v : Value) (ms : List Mark) : Prop :=
  ∃ before after, ms = before ++ set i v :: after ∧ ∀ m ∈ after, ¬m.Concerns i

theorem lastSet_append_singleton {i : UInt32} {v : Value} {ms : List Mark} {m : Mark} :
    LastSet i v (ms ++ [m]) ↔ m = set i v ∨ ¬m.Concerns i ∧ LastSet i v ms := by
  constructor
  · rintro ⟨before, after, h, hafter⟩
    rcases List.eq_nil_or_concat after with rfl | ⟨after', m', rfl⟩
    · exact .inl (List.singleton_inj.1 (List.append_inj' h rfl).2)
    · rw [List.concat_eq_append] at h hafter
      rw [← List.cons_append, ← List.append_assoc] at h
      obtain ⟨hms, hm⟩ := List.append_inj' h rfl
      obtain ⟨hinit, hlast⟩ := List.forall_mem_append.1 hafter
      obtain rfl : m = m' := List.singleton_inj.1 hm
      exact .inr ⟨hlast m List.mem_cons_self, before, after', hms, hinit⟩
  · rintro (rfl | ⟨hm, before, after, rfl, hafter⟩)
    · exact ⟨ms, [], rfl, fun _ h => nomatch h⟩
    · refine ⟨before, after ++ [m], List.append_assoc _ _ _, fun m' hm' => ?_⟩
      rcases List.mem_append.1 hm' with hm' | hm'
      · exact hafter m' hm'
      · exact List.mem_singleton.1 hm' ▸ hm

/-- What awaits to be written are the fields that were set, unless a later mark is about them. -/
theorem get?_awaiting {ms : List Mark} {i : UInt32} {v : Value} :
    (awaiting ms).get? i = some v ↔ LastSet i v ms := by
  induction ms using List.reverseRecOn with
  | nil =>
    constructor
    · intro h
      cases h
    · rintro ⟨before, after, h, _⟩
      cases before <;> cases h
  | append_singleton ms m ih =>
    rw [awaiting_append, lastSet_append_singleton, ← ih]
    change (apply (awaiting ms) m).get? i = some v ↔ _
    cases m with
    | set j w =>
      rw [apply, Table.get?_insert, set.injEq]
      by_cases hij : i = j
      · simp [Concerns, hij]
      · simp [Concerns, hij, Ne.symm hij]
    | forget j =>
      rw [apply, Table.get?_erase_eq]
      by_cases hij : i = j
      · simp [Concerns, hij]
      · simp [Concerns, hij, Ne.symm hij]
    | flush =>
      refine ⟨(nomatch ·), fun h => ?_⟩
      rcases h with h | ⟨h, _⟩
      · cases h
      · exact absurd trivial h

/-- The batch is made of the fields that were set and await to be written: it holds the encoding of
the last value of each, and nothing else. -/
structure Fills (c : Class) (ms : List Mark) (b : Slots) : Prop where
  encodes : ∀ i v, LastSet i v ms → ∃ f payload, c.fieldAt? i = some f ∧
    f.shape.encode f.name v = .ok payload ∧ b.get? i = some payload
  sets : ∀ i payload, b.get? i = some payload → ∃ v, LastSet i v ms

/-- There is one such batch at most. -/
theorem Fills.eq {c : Class} {ms : List Mark} {b b' : Slots} (h : Fills c ms b)
    (h' : Fills c ms b') : b = b' := by
  have hmem : ∀ {b b' : Slots}, Fills c ms b → Fills c ms b' → ∀ {i payload},
      b.get? i = some payload → b'.get? i = some payload := by
    intro b b' h h' i payload hpayload
    obtain ⟨v, hv⟩ := h.sets i payload hpayload
    obtain ⟨f, p, hf, hencode, hp⟩ := h.encodes i v hv
    obtain ⟨g, p', hg, hencode', hp'⟩ := h'.encodes i v hv
    obtain rfl : payload = p := Option.some.inj (hpayload.symm.trans hp)
    obtain rfl : f = g := Option.some.inj (hf.symm.trans hg)
    obtain rfl : payload = p' := Except.ok.inj (hencode.symm.trans hencode')
    exact hp'
  exact Table.ext_get? fun i => Option.ext fun payload => ⟨hmem h h', hmem h' h⟩

end Mark

/-- What is marked when the request was answered. -/
def Request.marks (c : Class) : (r : Request) → r.Answer → List Mark
  | set name _, v => (c.field? name).toList.map fun f => .set f.index v
  | write accessor _, v =>
    ((c.accessor? accessor).bind fun a => c.field? a.field).toList.map fun f => .set f.index v
  | setReference name _, id => (c.field? name).toList.map fun f => .set f.index (.ref id)
  | clearReference name, () => (c.field? name).toList.map fun f => .set f.index .null
  | invalidate name, () => (c.field? name).toList.map fun f => .forget f.index
  | flush, _ => [.flush]
  | get _, _ | read _, _ | reference _, _ | isDirty, _ | dirtyFields, _ | asReference, _
  | phase _, _ | state, _ => []

/-- A request that is not answered leaves no mark. -/
def Request.marked (c : Class) (r : Request) : Outcome StateError r.Answer → List Mark
  | .ok a => r.marks c a
  | _ => []

/-- What only reads leaves no mark. -/
theorem Request.Reads.marked {c : Class} {r : Request} (h : r.Reads)
    (out : Outcome StateError r.Answer) : r.marked c out = [] := by
  cases out with
  | ok a => cases r <;> first | rfl | cases h
  | fail e => rfl
  | crash => rfl

namespace Shape

open Success

/-- A field that refers to objects holds the reference that it is given. -/
theorem coerce_ref {s : Shape} {classId path : String} {id : Identity} {x : Value}
    (hs : s.referencedClass? = some classId) (h : s.coerce path (.ref id) = .ok x) :
    x = .ref id := by
  induction s using referencedClass?.induct with
  | case1 classId' =>
    rw [coerce, coerceReference] at h
    obtain ⟨id', hid, h⟩ := bind_eq_ok.1 h
    obtain ⟨_, _, h⟩ := bind_eq_ok.1 h
    cases hid
    cases h
    rfl
  | case2 inner ih =>
    rw [referencedClass?] at hs
    rw [coerce] at h
    · exact ih hs h
    · exact nofun
  | case3 s hreference hoptional =>
    rw [referencedClass?] at hs
    · cases hs
    · exact hreference
    · exact hoptional

theorem coerce_null {s : Shape} {classId path : String} {x : Value}
    (hs : s.referencedClass? = some classId) (h : s.coerce path .null = .ok x) : x = .null := by
  cases s with
  | reference classId' => cases h
  | optional inner =>
    cases h
    rfl
  | _ => cases hs

end Shape

namespace Resident

open Success
open Mark (awaiting)

/-- What the object is still to write is what awaits it by the marks, and it is in memory. -/
structure Noted (o : Resident) (ms : List Mark) : Prop where
  cached : ∀ i, o.state.dirty.contains i = true → ∃ v, o.state.cache.get? i = some v
  pending : o.pending = awaiting ms

variable {o o' : Resident} {ms : List Mark}

theorem noted_of_clean (h : ∀ i, o.state.dirty.contains i = false) : o.Noted [] where
  cached i hi := by
    rw [h i] at hi
    cases hi
  pending := by
    apply Table.ext_get?
    intro i
    rw [get?_pending, h i]
    rfl

theorem Noted.read (hnoted : o.Noted ms) (h : Read o o') : o'.Noted ms := by
  cases h with
  | stay => exact hnoted
  | @load f slot v hf hcache hv =>
    have hclean : o.state.dirty.contains f.index = false := by
      rw [Bool.eq_false_iff]
      intro hdirty
      obtain ⟨w, hw⟩ := hnoted.cached f.index hdirty
      rw [hcache] at hw
      cases hw
    refine ⟨fun i hi => ?_, (pending_load hclean).trans hnoted.pending⟩
    obtain ⟨w, hw⟩ := hnoted.cached i hi
    exact ⟨w, (Read.load hf hcache hv).cached hw⟩

theorem Noted.stage (h : o.Noted ms) (i : UInt32) (v : Value) :
    Noted { o with state := o.state.stage i v } (ms ++ [.set i v]) where
  cached j hj := by
    change ∃ w, (o.state.cache.insert i v).get? j = some w
    change Table.contains (o.state.dirty.add i) j = true at hj
    rw [Table.get?_insert]
    rw [KeySet.contains_add, Bool.or_eq_true] at hj
    split
    · exact ⟨v, rfl⟩
    case isFalse hne => exact h.cached j (hj.resolve_left fun heq => hne (of_decide_eq_true heq))
  pending := by
    rw [pending_stage, h.pending, Mark.awaiting_append]
    rfl

theorem Noted.evict (h : o.Noted ms) (i : UInt32) :
    Noted { o with state := o.state.evict i } (ms ++ [.forget i]) where
  cached j hj := by
    change Table.contains (Table.erase o.state.dirty i) j = true at hj
    change ∃ w, (o.state.cache.erase i).get? j = some w
    rw [KeySet.contains_erase, Bool.and_eq_true, Bool.not_eq_true', decide_eq_false_iff_not] at hj
    rw [Table.get?_erase_eq, if_neg hj.1]
    exact h.cached j hj.2
  pending := by
    rw [pending_evict, h.pending, Mark.awaiting_append]
    rfl

theorem noted_settled (h : ∀ i, o.state.dirty.contains i = false) (ms : List Mark) :
    o.Noted (ms ++ [.flush]) where
  cached := (noted_of_clean h).cached
  pending := by
    rw [(noted_of_clean h).pending, Mark.awaiting_append]
    rfl

theorem field?_of_field {name : String} {f : Field} (h : o.field name = .ok f) :
    o.schema.field? name = some f := by
  unfold field at h
  split at h
  case h_1 hf =>
    cases h
    exact hf
  case h_2 => cases h

theorem set_eq_ok {name : String} {v x : Value} (h : o.set name v = .ok (x, o')) :
    ∃ f, o.schema.field? name = some f ∧ f.shape.coerce f.name v = .ok x ∧
      o' = { o with state := o.state.stage f.index x } := by
  obtain ⟨f, hf, h⟩ := bind_eq_ok.1 h
  obtain ⟨y, hy, h⟩ := bind_eq_ok.1 h
  cases h
  exact ⟨f, field?_of_field hf, mapError_eq_ok.1 hy, rfl⟩

theorem referencedClass_eq_ok {name classId : String} (h : o.referencedClass name = .ok classId) :
    ∃ f, o.schema.field? name = some f ∧ f.shape.referencedClass? = some classId := by
  obtain ⟨f, hf, h⟩ := bind_eq_ok.1 h
  refine ⟨f, field?_of_field hf, ?_⟩
  split at h
  case h_1 hc =>
    cases h
    exact hc
  case h_2 => cases h

/-- A reference that is set is that of the target, and it is staged as it is. -/
theorem setReference_eq_ok {name : String} {t : Target} {id : Identity}
    (h : o.setReference name t = .ok (id, o')) :
    ∃ f classId, o.schema.field? name = some f ∧ f.shape.referencedClass? = some classId ∧
      t.normalizeFor classId = .ok id ∧
      o' = { o with state := o.state.stage f.index (.ref id) } := by
  obtain ⟨classId, hclass, h⟩ := bind_eq_ok.1 h
  obtain ⟨id', hid, h⟩ := bind_eq_ok.1 h
  obtain ⟨⟨x, o''⟩, hset, h⟩ := bind_eq_ok.1 h
  cases h
  obtain ⟨f, hf, hx, ho⟩ := set_eq_ok hset
  obtain ⟨g, hg, hreference⟩ := referencedClass_eq_ok hclass
  obtain rfl : f = g := Option.some.inj (hf.symm.trans hg)
  obtain rfl := Shape.coerce_ref hreference hx
  exact ⟨f, classId, hf, hreference, mapError_eq_ok.1 hid, ho⟩

theorem Noted.set (h : o.Noted ms) {name : String} {v x : Value}
    (hset : o.set name v = .ok (x, o')) :
    o'.Noted (ms ++ (o.schema.field? name).toList.map fun f => .set f.index x) := by
  obtain ⟨f, hf, _, rfl⟩ := set_eq_ok hset
  rw [hf]
  exact h.stage f.index x

theorem Noted.write (h : o.Noted ms) {accessor : String} {v x : Value}
    (hwrite : o.write accessor v = .ok (x, o')) : o'.Noted (ms ++
      ((o.schema.accessor? accessor).bind fun a => o.schema.field? a.field).toList.map
        fun f => .set f.index x) := by
  obtain ⟨name, haccessed, hset⟩ := bind_eq_ok.1 hwrite
  unfold accessed at haccessed
  split at haccessed
  · cases haccessed
  case h_2 a ha =>
    split at haccessed
    · cases haccessed
      rw [ha]
      exact h.set hset
    · cases haccessed

theorem Noted.setReference (h : o.Noted ms) {name : String} {t : Target} {id : Identity}
    (hset : o.setReference name t = .ok (id, o')) :
    o'.Noted (ms ++ (o.schema.field? name).toList.map fun f => .set f.index (.ref id)) := by
  obtain ⟨f, _, hf, _, _, rfl⟩ := setReference_eq_ok hset
  rw [hf]
  exact h.stage f.index (.ref id)

theorem Noted.clearReference (h : o.Noted ms) {name : String}
    (hclear : o.clearReference name = .ok o') :
    o'.Noted (ms ++ (o.schema.field? name).toList.map fun f => .set f.index .null) := by
  obtain ⟨classId, hclass, hclear⟩ := bind_eq_ok.1 hclear
  obtain ⟨⟨x, o''⟩, hset, heq⟩ := bind_eq_ok.1 hclear
  cases heq
  obtain ⟨f, hf, hx, _⟩ := set_eq_ok hset
  obtain ⟨g, hg, hreference⟩ := referencedClass_eq_ok hclass
  obtain rfl : f = g := Option.some.inj (hf.symm.trans hg)
  obtain rfl := Shape.coerce_null hreference hx
  exact h.set hset

theorem Noted.invalidate (h : o.Noted ms) {name : String}
    (hinvalidate : o.invalidate name = .ok o') :
    o'.Noted (ms ++ (o.schema.field? name).toList.map fun f => .forget f.index) := by
  obtain ⟨f, hf, heq⟩ := bind_eq_ok.1 hinvalidate
  cases heq
  rw [field?_of_field hf]
  exact h.evict f.index

/-- What the object is still to write are the fields that were set last by the marks. -/
theorem Noted.get?_pending (h : o.Noted ms) {i : UInt32} {v : Value} :
    o.pending.get? i = some v ↔ Mark.LastSet i v ms := by
  rw [h.pending, Mark.get?_awaiting]

theorem Noted.isDirty_iff (h : o.Noted ms) :
    o.isDirty = true ↔ ∃ i v, Mark.LastSet i v ms := by
  have hempty : o.isDirty = true ↔ ¬o.pending.isEmpty = true := by
    rw [isEmpty_pending, Bool.not_eq_true, Bool.not_eq_false']
  rw [hempty, Table.isEmpty_iff, not_forall]
  constructor
  · rintro ⟨i, hi⟩
    obtain ⟨v, hv⟩ := Option.ne_none_iff_exists'.1 hi
    exact ⟨i, v, h.get?_pending.1 hv⟩
  · rintro ⟨i, v, hv⟩
    refine ⟨i, fun hnone => ?_⟩
    cases (h.get?_pending.2 hv).symm.trans hnone

/-- The batch of the object is made of the fields that the marks tell of. -/
theorem Noted.batch_eq_ok_iff (h : o.Noted ms) {b : Slots} :
    o.batch = .ok b ↔ Mark.Fills o.schema ms b := by
  have hfills : ∀ {b}, o.batch = .ok b → Mark.Fills o.schema ms b := by
    intro b hb
    constructor
    · intro i v hv
      have hpending := h.get?_pending.2 hv
      have hcontains : b.contains i = true := by
        rw [contains_batch hb, ← Table.mem_keys, ← keys_pending, Table.mem_keys]
        exact Table.contains_iff.2 ⟨v, hpending⟩
      obtain ⟨payload, hpayload⟩ := Table.contains_iff.1 hcontains
      obtain ⟨w, f, hw, hf, hencode⟩ := exists_of_get?_batch hb hpayload
      obtain rfl : v = w := Option.some.inj (hpending.symm.trans hw)
      exact ⟨f, payload, hf, hencode, hpayload⟩
    · intro i payload hpayload
      obtain ⟨v, f, hv, _⟩ := exists_of_get?_batch hb hpayload
      exact ⟨v, h.get?_pending.1 hv⟩
  refine ⟨hfills, fun hb => ?_⟩
  obtain ⟨b', hb'⟩ := exists_batch (o := o) fun i v hv => by
    obtain ⟨f, payload, hf, hencode, _⟩ := hb.encodes i v (h.get?_pending.1 hv)
    exact ⟨f, payload, hf, hencode⟩
  rw [hb', hb.eq (hfills hb')]

theorem contains_of_clean (h : o.isDirty = false) (i : UInt32) :
    o.state.dirty.contains i = false := by
  have hempty : Table.isEmpty o.state.dirty = true := by
    unfold isDirty FieldState.isDirty at h
    rwa [Bool.not_eq_false'] at h
  exact Table.get?_eq_none_iff.1 (Table.isEmpty_iff.1 hempty i)

/-! ## Any request -/

variable {σ : Type}

/-- A change that fails leaves no mark. -/
theorem Noted.change (h : o.Noted ms) (r : Request)
    {f : Resident → Except StateError (r.Answer × Resident)}
    (hf : ∀ a o', f o = .ok (a, o') → o'.Noted (ms ++ r.marks o.schema a)) (s : σ) :
    (Resident.change f (o, s)).2.1.Noted
      (ms ++ r.marked o.schema (Resident.change f (o, s)).1) := by
  unfold Resident.change Run.onFirst Run.update
  dsimp only
  cases hr : f o with
  | error e => exact (List.append_nil ms).symm ▸ h
  | ok p => exact hf p.1 p.2 hr

variable [Store σ]

theorem Noted.flush (h : o.Noted ms) (s : σ) :
    (Resident.flush (o, s)).2.1.Noted
      (ms ++ Request.flush.marked o.schema (Resident.flush (o, s)).1) := by
  rcases o.write?_cases with ⟨hd, _⟩ | ⟨e, hd, hb, _⟩ | ⟨b, hd, hb, _⟩
  · rw [flush_of_clean hd]
    exact noted_settled (contains_of_clean hd) ms
  · rw [flush_of_not_encoded hd hb]
    exact (List.append_nil ms).symm ▸ h
  · rw [flush_put hd hb]
    rcases Store.put o.identity b s with ⟨out, s'⟩
    cases out with
    | ok u =>
      refine noted_settled (fun i => ?_) ms
      rw [dirty_settle hb]
      rfl
    | fail e => exact (List.append_nil ms).symm ▸ h
    | crash => exact (List.append_nil ms).symm ▸ h

/-- The marks of the requests tell what is still to be written. -/
theorem Noted.answer (h : o.Noted ms) (registry : Registry) (r : Request) (s : σ) :
    (r.run registry (o, s)).2.1.Noted (ms ++ r.marked o.schema (r.run registry (o, s)).1) := by
  have hread : ∀ {r : Request}, r.Reads → (r.run registry (o, s)).2.1.Noted
      (ms ++ r.marked o.schema (r.run registry (o, s)).1) := by
    intro r hr
    rw [hr.marked, List.append_nil]
    exact h.read (hr.read registry s)
  cases r with
  | get | read | reference | isDirty | dirtyFields | asReference | phase | state =>
    exact hread trivial
  | set name v => exact h.change (.set name v) (fun _ _ hset => h.set hset) s
  | write accessor v => exact h.change (.write accessor v) (fun _ _ hwrite => h.write hwrite) s
  | setReference name t =>
    exact h.change (.setReference name t) (fun _ _ hset => h.setReference hset) s
  | clearReference name =>
    refine h.change (.clearReference name) (fun _ _ hclear => ?_) s
    obtain ⟨o', hclear, heq⟩ := map_eq_ok.1 hclear
    cases heq
    exact h.clearReference hclear
  | invalidate name =>
    refine h.change (.invalidate name) (fun _ _ hinvalidate => ?_) s
    obtain ⟨o', hinvalidate, heq⟩ := map_eq_ok.1 hinvalidate
    cases heq
    exact h.invalidate hinvalidate
  | flush => exact h.flush s

end Resident
end ObjectSpace
