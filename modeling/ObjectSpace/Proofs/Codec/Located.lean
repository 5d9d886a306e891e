import ObjectSpace.Proofs.Codec.Walk
import ObjectSpace.Proofs.Value.Induction

/-!
# Failures inside larger values

A value or a document that stands inside a larger one is refused for the same reasons as by itself.
The path of the failure only goes on from the place where it stands. For this the names of members
must be told apart from what stands for a position or a key: a name is not empty, and does not begin
with a bracket.
-/

namespace ObjectSpace

open Success

/-! ## Paths -/

namespace Path

/-- What can stand behind a dot. -/
def IsName (name : String) : Prop := name ≠ "" ∧ name.toList.head? ≠ some '['

instance (name : String) : Decidable (IsName name) := inferInstanceAs (Decidable (_ ∧ _))

variable {root : String}

theorem within_name {path : String} (h : IsName path) : within root path = root ++ "." ++ path := by
  unfold within
  split
  case h_1 hnil => exact absurd (String.toList_eq_nil_iff.1 hnil) h.1
  case h_2 hchars => exact absurd (congrArg List.head? hchars) h.2
  case h_3 => rfl

theorem within_of_bracket {path : String} (h : path.toList.head? = some '[') :
    within root path = root ++ path := by
  obtain ⟨cs, hcs⟩ := List.head?_eq_some_iff.1 h
  unfold within
  split
  case h_1 hnil =>
    rw [hcs] at hnil
    cases hnil
  case h_2 => rfl
  case h_3 hother => exact absurd hcs (hother cs)

/-- A path that goes on is placed by where it starts. -/
theorem within_append {path : String} (hpath : path ≠ "") (rest : String) :
    within root (path ++ rest) = within root path ++ rest := by
  have hhead : (path ++ rest).toList.head? = path.toList.head? := by
    rw [String.toList_append]
    exact List.head?_append_of_ne_nil _ fun h => hpath (String.toList_eq_nil_iff.1 h)
  by_cases hbracket : path.toList.head? = some '['
  · rw [within_of_bracket (hhead.trans hbracket), within_of_bracket hbracket, String.append_assoc]
  · have happend : IsName (path ++ rest) :=
      ⟨fun h => hpath (String.append_eq_empty_iff.1 h).1, hhead ▸ hbracket⟩
    rw [within_name happend, within_name ⟨hpath, hbracket⟩]
    simp only [String.append_assoc]

/-- What begins with a bracket goes behind every path as it is. -/
theorem within_append_of_bracket (path : String) {rest : String}
    (h : rest.toList.head? = some '[') : within root (path ++ rest) = within root path ++ rest := by
  by_cases hpath : path = ""
  · subst hpath
    rw [String.empty_append, within_of_bracket h]
    rfl
  · exact within_append hpath rest

theorem head?_toList_append {a : String} {c : Char} (h : a.toList.head? = some c) (b : String) :
    (a ++ b).toList.head? = some c := by
  rw [String.toList_append, List.head?_append, h, Option.some_or]

theorem within_index (path : String) (i : Nat) :
    within root (index path i) = index (within root path) i := by
  unfold index
  simp only [String.append_assoc]
  exact within_append_of_bracket path (head?_toList_append rfl _)

theorem within_key (path : String) (k : Value) :
    within root (key path k) = key (within root path) k := by
  unfold key
  split
  all_goals
    simp only [String.append_assoc]
    exact within_append_of_bracket path (head?_toList_append rfl _)

theorem field_of_ne_empty {path : String} (hpath : path ≠ "") (name : String) :
    field path name = path ++ "." ++ name := by
  unfold field
  rw [String.isEmpty_eq_false_iff.2 hpath]
  rfl

theorem within_ne_empty {path : String} (hpath : path ≠ "") : within root path ≠ "" := by
  intro h
  by_cases hbracket : path.toList.head? = some '['
  · rw [within_of_bracket hbracket] at h
    exact hpath (String.append_eq_empty_iff.1 h).2
  · rw [within_name ⟨hpath, hbracket⟩] at h
    exact hpath (String.append_eq_empty_iff.1 h).2

/-- A member of the value itself stands behind the dot that the root goes on with. -/
theorem within_field (hroot : root ≠ "") (path : String) {name : String} (h : IsName name) :
    within root (field path name) = field (within root path) name := by
  by_cases hpath : path = ""
  · subst hpath
    change within root name = field root name
    rw [within_name h, field_of_ne_empty hroot]
  · rw [field_of_ne_empty hpath, field_of_ne_empty (within_ne_empty hpath),
      String.append_assoc, within_append hpath, ← String.append_assoc]

end Path

/-! ## Located failures -/

/-- A failure of the codec in a value that is found at `root`. -/
def CodecError.within (root : String) : CodecError → CodecError
  | mismatch m => mismatch (m.within root)
  | malformed reason => malformed reason
  | notFinite path x => notFinite (Path.within root path) x

/-- Elsewhere the computation does the same, and its failures are told from there. -/
def Located {ε α : Type} (tell : String → ε → ε) (f : String → Except ε α) : Prop :=
  ∀ root, root ≠ "" → ∀ path, f (Path.within root path) = (f path).mapError (tell root)

namespace Located

variable {ε α β : Type} {tell : String → ε → ε} {f : String → Except ε α}

theorem ok (a : α) : Located tell fun _ => .ok a := fun _ _ _ => rfl

theorem map (h : Located tell f) (g : α → β) : Located tell fun p => (f p).map g :=
  fun root hroot path => map_eq_mapError (h root hroot path) g

theorem bind {g : String → α → Except ε β} (h : Located tell f)
    (hg : ∀ a, Located tell fun p => g p a) : Located tell fun p => f p >>= g p :=
  fun root hroot path => bind_eq_mapError (h root hroot path) fun a => hg a root hroot path

theorem index (h : Located tell f) (i : Nat) : Located tell fun p => f (Path.index p i) := by
  intro root hroot path
  dsimp only
  rw [← Path.within_index]
  exact h root hroot _

theorem key (h : Located tell f) (k : Value) : Located tell fun p => f (Path.key p k) := by
  intro root hroot path
  dsimp only
  rw [← Path.within_key]
  exact h root hroot _

theorem field (h : Located tell f) {name : String} (hname : Path.IsName name) :
    Located tell fun p => f (Path.field p name) := by
  intro root hroot path
  dsimp only
  rw [← Path.within_field hroot path hname]
  exact h root hroot _

theorem eachAt {g : String → Nat → α → Except ε β} {as : List α}
    (h : ∀ a ∈ as, ∀ i, Located tell fun p => g p i a) (i : Nat) :
    Located tell fun p => eachAt (g p) i as :=
  fun root hroot path => eachAt_eq_mapError (fun a ha i => h a ha i root hroot path) i

theorem mapM {g : String → α → Except ε β} {as : List α}
    (h : ∀ a ∈ as, Located tell fun p => g p a) : Located tell fun p => as.mapM (g p) :=
  fun root hroot path => mapM_eq_mapError (List.forall₂_same.2 fun a ha => h a ha root hroot path)

end Located

/-- The computation tells its mismatches from where it stands. -/
abbrev MismatchLocated {α : Type} (f : String → Except Mismatch α) : Prop :=
  Located (fun root m => m.within root) f

theorem Located.mismatch {α : Type} {f : String → Except Mismatch α} (h : MismatchLocated f) :
    Located CodecError.within fun p => (f p).mapError .mismatch := by
  intro root hroot path
  dsimp only
  rw [h root hroot path]
  cases f path <;> rfl

/-! ## Names -/

/-- The members of records have names, and so have the keys of maps that are texts. -/
structure Value.Named (v : Value) : Prop where
  member : ∀ members, Within (record members) v → ∀ m ∈ members, Path.IsName m.1
  key : ∀ entries, Within (map entries) v → ∀ name x, (str name, x) ∈ entries → Path.IsName name

theorem Value.Named.mono {v w : Value} (h : v.Named) (hw : ∀ x, Within x w → Within x v) :
    w.Named where
  member members hm := h.member members (hw _ hm)
  key entries he := h.key entries (hw _ he)

namespace Shape

/-- The declared members of records have names. -/
def Named (s : Shape) : Prop :=
  ∀ name declared, Part (record name declared) s → ∀ d ∈ declared, Path.IsName d.name

theorem Named.mono {s t : Shape} (h : s.Named) (ht : ∀ x, Part x t → Part x s) : t.Named :=
  fun name declared hp => h name declared (ht _ hp)

/-- A walk over the elements of a tuple, which is given by its equations. -/
theorem located_each {ε α β : Type} {tell : String → ε → ε} {step : String → Shape → α → Except ε β}
    {walk : String → Nat → List Shape → List α → Except ε (List β)}
    (hnil : ∀ p i as, walk p i [] as = .ok [])
    (hshort : ∀ p i s ss, walk p i (s :: ss) [] = .ok [])
    (hcons : ∀ p i s ss a as, walk p i (s :: ss) (a :: as) =
      step (Path.index p i) s a >>= fun b => walk p (i + 1) ss as >>= fun bs => pure (b :: bs))
    {ss : List Shape} {as : List α} (h : ∀ s ∈ ss, ∀ a ∈ as, Located tell fun p => step p s a)
    (i : Nat) : Located tell fun p => walk p i ss as := by
  induction ss generalizing as i with
  | nil =>
    simp only [hnil]
    exact .ok _
  | cons s ss ih =>
    cases as with
    | nil =>
      simp only [hshort]
      exact .ok _
    | cons a as =>
      have hone : Located tell fun p => step p s a := h s List.mem_cons_self a List.mem_cons_self
      have hrest := ih (fun t ht b hb => h t (List.mem_cons_of_mem _ ht) b
        (List.mem_cons_of_mem _ hb)) (i + 1)
      simp only [hcons]
      exact .bind (hone.index i) fun _ => .bind hrest fun _ => .ok _

/-! ## Reading -/

theorem located_readInt (j : Json) : MismatchLocated fun p => readInt p j := by
  intro root _ path
  dsimp only [readInt]
  split
  · split <;> rfl
  · rfl

theorem located_readFloat (j : Json) : MismatchLocated fun p => readFloat p j := by
  intro root _ path
  dsimp only [readFloat]
  split
  · split <;> rfl
  · rfl
  · rfl

theorem located_readText (s : Shape) (j : Json) : MismatchLocated fun p => readText s p j := by
  intro root _ path
  dsimp only [readText]
  split <;> rfl

theorem located_bytesOfText (text : String) : MismatchLocated fun p => bytesOfText p text := by
  intro root _ path
  dsimp only [bytesOfText]
  split <;> rfl

theorem located_instantOfText (text : String) : MismatchLocated fun p => instantOfText p text := by
  intro root _ path
  dsimp only [instantOfText]
  split <;> rfl

theorem located_uuidOfText (reason text : String) :
    MismatchLocated fun p => uuidOfText reason p text := by
  intro root _ path
  dsimp only [uuidOfText]
  split <;> rfl

theorem located_choiceOfText (name : String) (variants : List String) (text : String) :
    MismatchLocated fun p => choiceOfText name variants p text := by
  intro root _ path
  dsimp only [choiceOfText]
  split <;> rfl

theorem located_checkClass (classId : String) (id : Identity) :
    MismatchLocated fun p => checkClass classId p id := by
  intro root _ path
  dsimp only [checkClass]
  split <;> rfl

theorem located_writable (id : Identity) : MismatchLocated fun p => writable p id := by
  intro root _ path
  dsimp only [writable]
  cases id.validate <;> rfl

theorem located_readReference (classId : String) (j : Json) :
    MismatchLocated fun p => readReference classId p j := by
  cases j with
  | obj members =>
    refine .bind ?_ fun id => .bind (located_checkClass classId id) fun _ =>
      .bind (located_writable id) fun _ => .ok _
    intro root _ path
    cases Identity.ofJsonMembers members <;> rfl
  | _ => exact fun _ _ _ => rfl

theorem located_canonicalEntries (entries : List (Value × Value)) :
    MismatchLocated fun p => canonicalEntries p entries := by
  intro root _ path
  dsimp only [canonicalEntries]
  split
  · rw [← Path.within_key]
    rfl
  · rfl

theorem located_absent (m : Member Shape) : MismatchLocated fun p => absent p m := by
  intro root _ path
  dsimp only [absent]
  split <;> rfl

/-- What the alternatives of a union make of a document does not hang on the path: a failure is only
told by what was received. -/
theorem readFirst_within {ss : List Shape} {j : Json}
    (ih : ∀ s ∈ ss, MismatchLocated fun p => read p s j) {root : String} (hroot : root ≠ "")
    (path : String) : readFirst (Path.within root path) ss j = readFirst path ss j := by
  induction ss with
  | nil => rfl
  | cons s ss ih' =>
    obtain ⟨hs, hss⟩ := List.forall_mem_cons.1 ih
    have hone : read (Path.within root path) s j = (read path s j).mapError (·.within root) :=
      hs root hroot path
    unfold readFirst
    rw [hone, ih' hss]
    cases read path s j <;> rfl

theorem located_readMembers {declared : List (Member Shape)} {members : List (String × Json)}
    (hnames : ∀ d ∈ declared, Path.IsName d.name)
    (ih : ∀ d ∈ declared, ∀ j, MismatchLocated fun p => read p d.shape j) :
    MismatchLocated fun p => readMembers p declared members := by
  induction declared with
  | nil => exact .ok _
  | cons d ds ih' =>
    obtain ⟨hname, hothers⟩ := List.forall_mem_cons.1 hnames
    obtain ⟨hd, hds⟩ := List.forall_mem_cons.1 ih
    obtain ⟨name, s, default⟩ := d
    have hrest := ih' hothers hds
    cases hlookup : Entries.lookup name members with
    | none =>
      simp only [readMembers, hlookup]
      exact .bind ((located_absent _).field hname) fun _ => .bind hrest fun _ => .ok _
    | some j =>
      simp only [readMembers, hlookup]
      exact .bind ((hd j).field hname) fun _ => .bind hrest fun _ => .ok _

theorem located_read {s : Shape} (hs : s.Named) (j : Json) :
    MismatchLocated fun p => read p s j := by
  induction s generalizing j with
  | int => exact located_readInt j
  | float => exact located_readFloat j
  | bool => cases j <;> exact fun _ _ _ => rfl
  | str => exact .map (located_readText _ j) _
  | bytes => exact .bind (located_readText _ j) located_bytesOfText
  | instant => exact .bind (located_readText _ j) located_instantOfText
  | uuid => exact .bind (located_readText _ j) (located_uuidOfText Uuid.refusal)
  | choice name variants =>
    exact .bind (located_readText _ j) (located_choiceOfText name variants)
  | reference classId => exact located_readReference classId j
  | any => exact .ok _
  | optional inner ih =>
    cases j with
    | null => exact .ok _
    | _ => exact ih (hs.mono fun _ => .optional) _
  | union alternatives ih =>
    intro root hroot path
    have hfirst := readFirst_within (fun s hmem => ih s hmem (hs.mono fun _ => .union hmem) j)
      hroot path
    dsimp only [read]
    rw [hfirst]
    cases readFirst path alternatives j <;> rfl
  | list element ih =>
    cases j with
    | arr items =>
      exact .map (.eachAt (fun item _ i => (ih (hs.mono fun _ => .list) item).index i) 0) _
    | _ => exact fun _ _ _ => rfl
  | set element ih =>
    cases j with
    | arr items =>
      exact .map (.eachAt (fun item _ i => (ih (hs.mono fun _ => .set) item).index i) 0) _
    | _ => exact fun _ _ _ => rfl
  | tuple elements ih =>
    cases j with
    | arr items =>
      by_cases hlength : items.length = elements.length
      · simp only [read, if_pos hlength]
        exact .map (located_each (fun _ _ _ => rfl) (fun _ _ _ _ => rfl) (fun _ _ _ _ _ _ => rfl)
          (fun s hmem j _ => ih s hmem (hs.mono fun _ => .tuple hmem) j) 0) _
      · simp only [read, if_neg hlength]
        exact fun _ _ _ => rfl
    | _ => exact fun _ _ _ => rfl
  | map key value ihk ihv =>
    have hkey := ihk (hs.mono fun _ => .key)
    have hvalue := ihv (hs.mono fun _ => .value)
    cases j with
    | obj members =>
      cases ht : key.isTextual with
      | false =>
        simp only [read, ht]
        exact fun _ _ _ => rfl
      | true =>
        simp only [read, ht, if_true]
        exact .bind (.mapM fun m _ => .bind (hkey _) fun k => .bind ((hvalue _).key k) fun _ =>
          .ok _) located_canonicalEntries
    | arr pairs =>
      simp only [read]
      refine .bind (.eachAt (fun pair _ i root hroot path => ?_) 0) located_canonicalEntries
      dsimp only
      split
      case h_1 k v _ =>
        exact Located.bind ((hkey k).index i) (fun k => .bind ((hvalue v).key k) fun _ => .ok _)
          root hroot path
      case h_2 =>
        rw [← Path.within_index]
        rfl
    | _ => exact fun _ _ _ => rfl
  | record name declared ih =>
    cases j with
    | obj members =>
      exact .map (located_readMembers (hs name declared .self)
        fun d hd j => ih d hd (hs.mono fun _ => .member hd) j) _
    | _ => exact fun _ _ _ => rfl

/-! ## Writing -/

theorem located_writeFloat (x : Binary64) : Located CodecError.within fun p => writeFloat p x := by
  intro root _ path
  dsimp only [writeFloat]
  split <;> rfl

theorem located_writeReference (classId : String) (id : Identity) :
    Located CodecError.within fun p => writeReference classId p id :=
  .bind (located_checkClass classId id).mismatch fun _ =>
    .bind (located_writable id).mismatch fun _ => .ok _

theorem located_keyText (key : Shape) (k : Value) (j : Json) :
    Located CodecError.within fun p => keyText p key k j := by
  cases j <;> exact fun _ _ _ => rfl

theorem located_plainArray {items : List Value} {i : Nat}
    (ih : ∀ v ∈ items, Located CodecError.within fun p => writePlain p v) :
    Located CodecError.within fun p => plainArray p i items := by
  induction items generalizing i with
  | nil => exact .ok _
  | cons v vs ih' =>
    obtain ⟨hv, hvs⟩ := List.forall_mem_cons.1 ih
    exact .bind (hv.index i) fun _ => .bind (ih' hvs) fun _ => .ok _

theorem located_plainObject {members : List (String × Value)}
    (hnames : ∀ m ∈ members, Path.IsName m.1)
    (ih : ∀ m ∈ members, Located CodecError.within fun p => writePlain p m.2) :
    Located CodecError.within fun p => plainObject p members := by
  induction members with
  | nil => exact .ok _
  | cons m ms ih' =>
    obtain ⟨hname, hothers⟩ := List.forall_mem_cons.1 hnames
    obtain ⟨hm, hms⟩ := List.forall_mem_cons.1 ih
    exact .bind (hm.field hname) fun _ => .bind (ih' hothers hms) fun _ => .ok _

theorem located_plainEntries {entries : List (Value × Value)}
    (hnames : ∀ name v, (.str name, v) ∈ entries → Path.IsName name)
    (ih : ∀ e ∈ entries, Located CodecError.within fun p => writePlain p e.2) :
    Located CodecError.within fun p => plainEntries p entries := by
  induction entries with
  | nil => exact .ok _
  | cons e es ih' =>
    obtain ⟨he, hes⟩ := List.forall_mem_cons.1 ih
    have hrest := ih' (fun name v hmem => hnames name v (List.mem_cons_of_mem _ hmem)) hes
    obtain ⟨k, v⟩ := e
    cases k with
    | str name =>
      have hname : Path.IsName name := hnames name v List.mem_cons_self
      exact .bind (he.field hname) fun _ => .bind hrest fun _ => .ok _
    | _ =>
      intro root _ path
      dsimp only [plainEntries]
      rw [← Path.within_key]
      rfl

theorem located_writePlain {v : Value} (hv : v.Named) :
    Located CodecError.within fun p => writePlain p v := by
  induction v with
  | float x => exact located_writeFloat x
  | list items ih =>
    exact .map (located_plainArray fun v hmem => ih v hmem (hv.mono fun _ => .list hmem)) _
  | set items ih =>
    exact .map (located_plainArray fun v hmem => ih v hmem (hv.mono fun _ => .set hmem)) _
  | tuple items ih =>
    exact .map (located_plainArray fun v hmem => ih v hmem (hv.mono fun _ => .tuple hmem)) _
  | map entries ih =>
    exact .map (located_plainEntries (hv.key entries .self)
      fun e hmem => (ih e hmem).2 (hv.mono fun _ => .value hmem)) _
  | record members ih =>
    exact .map (located_plainObject (hv.member members .self)
      fun m hmem => ih m hmem (hv.mono fun _ => .member hmem)) _
  | _ => exact fun _ _ _ => rfl

/-- A document is tried in the same way wherever the value stands. -/
theorem located_writeFirst {all ss : List Shape} {v : Value}
    (hall : ∀ s ∈ all, ∀ j, MismatchLocated fun p => read p s j)
    (ih : ∀ s ∈ ss, Located CodecError.within fun p => write p s v) :
    Located CodecError.within fun p => writeFirst p all ss v := by
  induction ss with
  | nil => exact .ok _
  | cons s ss ih' =>
    obtain ⟨hs, hss⟩ := List.forall_mem_cons.1 ih
    have hrest := ih' hss
    intro root hroot path
    dsimp only [writeFirst]
    split
    case isTrue =>
      refine bind_eq_mapError (hs root hroot path) fun j => ?_
      rw [readFirst_within (fun s hmem => hall s hmem j) hroot]
      split
      · split
        · rfl
        · exact hrest root hroot path
      · exact hrest root hroot path
    case isFalse => exact hrest root hroot path

theorem located_writeMembers {declared : List (Member Shape)} {members : List (String × Value)}
    (hnames : ∀ d ∈ declared, Path.IsName d.name)
    (ih : ∀ d ∈ declared, ∀ m ∈ members, Located CodecError.within fun p => write p d.shape m.2) :
    Located CodecError.within fun p => writeMembers p declared members := by
  induction declared with
  | nil => exact .ok _
  | cons d ds ih' =>
    obtain ⟨hname, hothers⟩ := List.forall_mem_cons.1 hnames
    obtain ⟨hd, hds⟩ := List.forall_mem_cons.1 ih
    obtain ⟨name, s, default⟩ := d
    have hrest := ih' hothers hds
    cases hlookup : Entries.lookup name members with
    | none =>
      simp only [writeMembers, hlookup]
      exact .bind ((located_absent _).field hname).mismatch fun _ => hrest
    | some v =>
      simp only [writeMembers, hlookup]
      have hv := hd _ (Entries.mem_of_lookup hlookup)
      exact .bind (hv.field hname) fun _ => .bind hrest fun _ => .ok _

theorem located_write {s : Shape} (hs : s.Named) {v : Value} (hv : v.Named) :
    Located CodecError.within fun p => write p s v := by
  induction s generalizing v with
  | int | bool | str | bytes | instant | uuid => cases v <;> exact fun _ _ _ => rfl
  | float =>
    cases v with
    | float x => exact located_writeFloat x
    | _ => exact fun _ _ _ => rfl
  | choice name variants =>
    cases v with
    | str text =>
      intro root _ path
      dsimp only [write]
      split <;> rfl
    | _ => exact fun _ _ _ => rfl
  | reference classId =>
    cases v with
    | ref id => exact located_writeReference classId id
    | _ => exact fun _ _ _ => rfl
  | any => exact located_writePlain hv
  | optional inner ih =>
    cases v with
    | null => exact .ok _
    | _ => exact ih (hs.mono fun _ => .optional) hv
  | union alternatives ih =>
    have halternatives : ∀ s ∈ alternatives, s.Named := fun s hmem => hs.mono fun _ => .union hmem
    cases haccepted : anyAccepts alternatives v with
    | false =>
      simp only [write, haccepted]
      exact fun _ _ _ => rfl
    | true =>
      simp only [write, haccepted, if_true]
      -- What reads back does so at every path, so the same alternative is chosen.
      refine .bind (located_writeFirst (fun s hmem j => located_read (halternatives s hmem) j)
        fun s hmem => ih s hmem (halternatives s hmem) hv) fun found => ?_
      cases found <;> exact fun _ _ _ => rfl
  | list element ih =>
    cases v with
    | list items =>
      exact .map (.eachAt (fun item hmem i =>
        (ih (hs.mono fun _ => .list) (hv.mono fun _ => .list hmem)).index i) 0) _
    | _ => exact fun _ _ _ => rfl
  | set element ih =>
    cases v with
    | set items =>
      refine .map (.eachAt (fun item hmem i =>
        (ih (hs.mono fun _ => .set) (hv.mono fun _ => .set ?_)).index i) 0) _
      exact Ordered.mem_of_mem_distinct hmem
    | _ => exact fun _ _ _ => rfl
  | tuple elements ih =>
    cases v with
    | tuple items =>
      by_cases hlength : items.length = elements.length
      · simp only [write, if_pos hlength]
        exact .map (located_each (fun _ _ _ => rfl) (fun _ _ _ _ => rfl) (fun _ _ _ _ _ _ => rfl)
          (fun s hmem v hv' =>
            ih s hmem (hs.mono fun _ => .tuple hmem) (hv.mono fun _ => .tuple hv')) 0) _
      · simp only [write, if_neg hlength]
        exact fun _ _ _ => rfl
    | _ => exact fun _ _ _ => rfl
  | map key value ihk ihv =>
    cases v with
    | map entries =>
      have hkey : ∀ e ∈ entries, Located CodecError.within fun p => write p key e.1 :=
        fun e he => ihk (hs.mono fun _ => .key) (hv.mono fun _ => .key he)
      have hvalue : ∀ e ∈ entries, Located CodecError.within fun p => write p value e.2 :=
        fun e he => ihv (hs.mono fun _ => .value) (hv.mono fun _ => .value he)
      cases ht : key.isTextual with
      | true =>
        simp only [write, ht, if_true]
        exact .bind (.mapM fun e he =>
          .bind (.bind (hkey e he) fun j => located_keyText key e.1 j) fun _ =>
            .bind ((hvalue e he).key e.1) fun _ => .ok _) fun _ => .ok _
      | false =>
        simp only [write, ht]
        exact .bind (.eachAt (fun e he i =>
          .bind ((hkey e he).index i) fun _ => .bind ((hvalue e he).key e.1) fun _ => .ok _) 0)
          fun _ => .ok _
    | _ => exact fun _ _ _ => rfl
  | record name declared ih =>
    cases v with
    | record members =>
      cases hunknown : undeclared? declared members with
      | some unknown =>
        -- The name that is not declared is one of the value, not of the shape.
        obtain ⟨m, hm, rfl⟩ := Option.map_eq_some_iff.1 hunknown
        have hname : Path.IsName m.1 := hv.member members .self m (List.mem_of_find?_eq_some hm)
        intro root hroot path
        simp only [write, hunknown]
        unfold noSuchField
        rw [← Path.within_field hroot path hname]
        rfl
      | none =>
        simp only [write, hunknown]
        exact .map (located_writeMembers (hs name declared .self) fun d hd m hm =>
          ih d hd (hs.mono fun _ => .member hd) (hv.mono fun _ => .member hm)) _
    | _ => exact fun _ _ _ => rfl

/-- What stands at a place of something larger reads and writes as by itself. Where it is refused by
itself it is refused at its place, for the same reason, and the path leads on from there. -/
theorem refused_within_iff {s : Shape} (hs : s.Named) (root : String) (hroot : root ≠ "") (j : Json)
    {v : Value} (hv : v.Named) :
    (∀ r, read root s j = .ok r ↔ read "" s j = .ok r) ∧
    (∀ m, read root s j = .error m ↔ ∃ m', read "" s j = .error m' ∧ m'.within root = m) ∧
    (∀ d, write root s v = .ok d ↔ write "" s v = .ok d) ∧
    ∀ m, write root s v = .error (.mismatch m) ↔
      ∃ m', write "" s v = .error (.mismatch m') ∧ m'.within root = m := by
  have hread : read root s j = (read "" s j).mapError (·.within root) :=
    located_read hs j root hroot ""
  have hwrite : write root s v = (write "" s v).mapError (CodecError.within root) :=
    located_write hs hv root hroot ""
  rw [hread, hwrite]
  refine ⟨fun r => mapError_eq_ok, fun m => mapError_eq_error, fun d => mapError_eq_ok,
    fun m => ?_⟩
  rw [mapError_eq_error]
  constructor
  · rintro ⟨e, he, hm⟩
    cases e with
    | mismatch m' =>
      cases hm
      exact ⟨m', he, rfl⟩
    | malformed _ => cases hm
    | notFinite path x => cases hm
  · rintro ⟨m', hm', rfl⟩
    exact ⟨.mismatch m', hm', rfl⟩

/-- A game has notes, and rounds by number. -/
def game : Shape :=
  .record "Game" [⟨"notes", .any, none⟩,
    ⟨"rounds", .map .int (.list (.union [.int, .tuple [.str, .int]])), none⟩]

/-- In round 7 nothing is said of the second score but who made it. -/
def played : Json :=
  .obj [("rounds", .arr [.arr [.int 7, .arr [.int 1, .arr [.str "x", .null]]]])]

/-- The notes hold what cannot be written there. -/
def noted : Value := .record [("notes", .map [(.str "sky", .bytes .empty)])]

theorem named_game : game.Named := by
  intro name declared hp
  cases hp with
  | self => decide
  | member hm hp =>
    rcases List.mem_pair.1 hm with rfl | rfl
    · cases hp
    · cases hp with
      | key hp => cases hp
      | value hp =>
        cases hp with
        | list hp =>
          cases hp with
          | union hs hp =>
            rcases List.mem_pair.1 hs with rfl | rfl
            · cases hp
            · cases hp with
              | tuple hs hp => rcases List.mem_pair.1 hs with rfl | rfl <;> cases hp

theorem named_noted : noted.Named := by
  constructor
  case member =>
    intro members hw
    cases hw with
    | self => decide
    | member hm hw =>
      obtain rfl := List.mem_singleton.1 hm
      cases hw with
      | key he hw =>
        obtain rfl := List.mem_singleton.1 he
        cases hw
      | value he hw =>
        obtain rfl := List.mem_singleton.1 he
        cases hw
  case key =>
    intro entries hw name x hx
    cases hw with
    | member hm hw =>
      obtain rfl := List.mem_singleton.1 hm
      cases hw with
      | self =>
        cases List.mem_singleton.1 hx
        decide
      | key he hw =>
        obtain rfl := List.mem_singleton.1 he
        cases hw
      | value he hw =>
        obtain rfl := List.mem_singleton.1 he
        cases hw

theorem refused_within_iff_game :
    game.Named ∧ "score" ≠ "" ∧ noted.Named ∧
    (∃ m, read "" game played = .error m ∧ m.path = "rounds[7][1]" ∧
      read "score" game played = .error { m with path := "score.rounds[7][1]" }) ∧
    ∃ m, write "" game noted = .error (.mismatch m) ∧ m.path = "notes.sky" ∧
      write "score" game noted = .error (.mismatch { m with path := "score.notes.sky" }) := by
  obtain ⟨_, hread, _, hwrite⟩ :=
    refused_within_iff named_game "score" (by decide) played named_noted
  exact ⟨named_game, by decide, named_noted, ⟨_, rfl, rfl, (hread _).2 ⟨_, rfl, rfl⟩⟩,
    ⟨_, rfl, rfl, (hwrite _).2 ⟨_, rfl, rfl⟩⟩⟩

end Shape
end ObjectSpace
