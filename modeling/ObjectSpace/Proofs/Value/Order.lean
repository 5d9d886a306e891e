import ObjectSpace.Value.Order

/-!
# The order of values is total

Every value is spelled as a word of letters, and values compare as their words do in the
lexicographic order. A sequence puts `more` in front of each item and `stop` behind the last one, so
that no word is a proper beginning of another. The laws of the order are those of the words. The
order tells all values apart.
-/

namespace ObjectSpace
namespace Value

/-- The kind of a value, and what it holds itself. Only the part that its kind uses is set. -/
structure Letter where
  rank : Nat
  flag : Bool
  whole : Int64
  number : Int
  nanos : Nat
  text : String
  octets : List UInt8
  identity : Identity

namespace Letter

def plain (rank : Nat) : Letter := ⟨rank, false, 0, 0, 0, "", [], default⟩

def stop : Letter := plain 0
def more : Letter := plain 1

def compare : Letter → Letter → Ordering :=
  compareLex (compareOn rank) (compareLex (compareOn flag) (compareLex (compareOn whole)
    (compareLex (compareOn number) (compareLex (compareOn nanos) (compareLex (compareOn text)
      (compareLex (compareOn octets) (compareOn identity)))))))

instance : Std.TransCmp compare := inferInstanceAs (Std.TransCmp (compareLex _ _))

end Letter

def letter : Value → Letter
  | bool b => { Letter.plain 1 with flag := b }
  | int n => { Letter.plain 2 with whole := n }
  | float x => { Letter.plain 3 with number := x.rank }
  | str s => { Letter.plain 4 with text := s }
  | bytes b => { Letter.plain 5 with octets := b.data.toList }
  | instant t => { Letter.plain 6 with number := t.seconds, nanos := t.nanos }
  | uuid u => { Letter.plain 7 with nanos := u.value.toNat }
  | ref id => { Letter.plain 8 with identity := id }
  | v => Letter.plain v.rank

mutual

/-- The word of a value. -/
def word : Value → List Letter
  | list items => letter (list items) :: wordOfItems items
  | set items => letter (set items) :: wordOfItems items
  | tuple items => letter (tuple items) :: wordOfItems items
  | map entries => letter (map entries) :: wordOfEntries entries
  | record members => letter (record members) :: wordOfMembers members
  | v => [letter v]

def wordOfItems : List Value → List Letter
  | [] => [Letter.stop]
  | v :: vs => Letter.more :: (word v ++ wordOfItems vs)

def wordOfEntries : List (Value × Value) → List Letter
  | [] => [Letter.stop]
  | (k, v) :: es => Letter.more :: (word k ++ (word v ++ wordOfEntries es))

def wordOfMembers : List (String × Value) → List Letter
  | [] => [Letter.stop]
  | (name, v) :: ms =>
    Letter.more :: { Letter.plain 4 with text := name } :: (word v ++ wordOfMembers ms)

end

/-- Words in lexicographic order. -/
def compareWords : List Letter → List Letter → Ordering := List.compareLex Letter.compare

instance : Std.TransCmp compareWords := inferInstanceAs (Std.TransCmp (List.compareLex _))

theorem compareWords_cons (l m : Letter) (x y : List Letter) :
    compareWords (l :: x) (m :: y) = (l.compare m).then (compareWords x y) :=
  List.compareLex_cons_cons

@[simp] theorem compareWords_cons_self (l : Letter) (x y : List Letter) :
    compareWords (l :: x) (l :: y) = compareWords x y := by
  have h : l.compare l = .eq := Std.ReflCmp.compare_self
  rw [compareWords_cons, h]
  rfl

@[simp] theorem compareWords_stop_more (x y : List Letter) :
    compareWords (.stop :: x) (.more :: y) = .lt := compareWords_cons _ _ x y

@[simp] theorem compareWords_more_stop (x y : List Letter) :
    compareWords (.more :: x) (.stop :: y) = .gt := compareWords_cons _ _ x y

theorem word_eq_cons (v : Value) : ∃ tail, word v = letter v :: tail := by
  cases v <;> exact ⟨_, rfl⟩

theorem compare_of_rank_ne {a b : Value} (h : a.rank ≠ b.rank) :
    Value.compare a b = Ord.compare a.rank b.rank := by
  cases a <;> cases b <;> first | exact absurd rfl h | rfl

theorem compare_letter_of_rank_ne {a b : Value} (h : a.rank ≠ b.rank) :
    (letter a).compare (letter b) = Ord.compare a.rank b.rank := by
  cases a <;> cases b <;> first | exact absurd rfl h | rfl

theorem then_of_ne_eq {o p : Ordering} (h : o ≠ .eq) : o.then p = o := by
  cases o with
  | eq => exact absurd rfl h
  | lt => rfl
  | gt => rfl

/-- Where the kinds differ, the first letters decide. -/
theorem compareWords_of_rank_ne {a b : Value} (h : a.rank ≠ b.rank) (x y : List Letter) :
    compareWords (word a ++ x) (word b ++ y) = (Value.compare a b).then (compareWords x y) := by
  obtain ⟨ta, ha⟩ := word_eq_cons a
  obtain ⟨tb, hb⟩ := word_eq_cons b
  have hne : Ord.compare a.rank b.rank ≠ .eq := fun he => h (Std.LawfulEqOrd.eq_of_compare he)
  rw [ha, hb, List.cons_append, List.cons_append, compareWords_cons, compare_letter_of_rank_ne h,
    compare_of_rank_ne h, then_of_ne_eq hne, then_of_ne_eq hne]

/-- Values without parts are spelled by one letter, which compares as they do. -/
theorem compareWords_leaf {a b : Value} (ha : word a = [letter a]) (hb : word b = [letter b])
    (h : (letter a).compare (letter b) = Value.compare a b) (x y : List Letter) :
    compareWords (word a ++ x) (word b ++ y) = (Value.compare a b).then (compareWords x y) := by
  rw [ha, hb, ← h]
  exact compareWords_cons _ _ x y

theorem wordOfItems_ne_nil (vs : List Value) : wordOfItems vs ≠ [] := by
  cases vs <;> simp [wordOfItems]

theorem wordOfEntries_ne_nil (es : List (Value × Value)) : wordOfEntries es ≠ [] := by
  cases es <;> simp [wordOfEntries]

theorem wordOfMembers_ne_nil (ms : List (String × Value)) : wordOfMembers ms ≠ [] := by
  cases ms <;> simp [wordOfMembers]

theorem compare_letter_leaf {a b : Value} (h : a.rank = b.rank) (ha : word a = [letter a]) :
    (letter a).compare (letter b) = Value.compare a b := by
  cases a <;> cases b <;> first
    | (simp [rank] at h; done)
    | (simp [word, wordOfItems_ne_nil, wordOfEntries_ne_nil, wordOfMembers_ne_nil] at ha; done)
    | (simp [letter, Letter.compare, Letter.plain, Value.compare, compareLex, compareOn,
        Binary64.compare, Instant.compare, Uuid.compare, Identity.compare]; done)
    | (simp [letter, Letter.compare, Letter.plain, Value.compare, compareLex, compareOn]; rfl)

mutual

theorem compareWords_word (a b : Value) (x y : List Letter) :
    compareWords (word a ++ x) (word b ++ y) = (Value.compare a b).then (compareWords x y) := by
  by_cases h : a.rank = b.rank
  · cases a <;> cases b <;> first | (simp [rank] at h; done) | skip
    case list.list as bs =>
      simpa [word, letter, rank, Value.compare] using compareWords_items as bs x y
    case set.set as bs =>
      simpa [word, letter, rank, Value.compare] using compareWords_items as bs x y
    case tuple.tuple as bs =>
      simpa [word, letter, rank, Value.compare] using compareWords_items as bs x y
    case map.map as bs =>
      simpa [word, letter, rank, Value.compare] using compareWords_entries as bs x y
    case record.record as bs =>
      simpa [word, letter, rank, Value.compare] using compareWords_members as bs x y
    all_goals exact compareWords_leaf rfl rfl (compare_letter_leaf h rfl) x y
  · exact compareWords_of_rank_ne h x y

theorem compareWords_items (as bs : List Value) (x y : List Letter) :
    compareWords (wordOfItems as ++ x) (wordOfItems bs ++ y) =
      (compareItems as bs).then (compareWords x y) := by
  cases as with
  | nil => cases bs <;> simp [wordOfItems, compareItems]
  | cons a as =>
    cases bs with
    | nil => simp [wordOfItems, compareItems]
    | cons b bs =>
      simp only [wordOfItems, compareItems, List.cons_append, List.append_assoc,
        compareWords_cons_self, compareWords_word a b, compareWords_items as bs,
        Ordering.then_assoc]

theorem compareWords_entries (as bs : List (Value × Value)) (x y : List Letter) :
    compareWords (wordOfEntries as ++ x) (wordOfEntries bs ++ y) =
      (compareEntries as bs).then (compareWords x y) := by
  cases as with
  | nil => cases bs <;> simp [wordOfEntries, compareEntries]
  | cons a as =>
    cases bs with
    | nil => simp [wordOfEntries, compareEntries]
    | cons b bs =>
      obtain ⟨k, a⟩ := a
      obtain ⟨k', b⟩ := b
      simp only [wordOfEntries, compareEntries, List.cons_append, List.append_assoc,
        compareWords_cons_self, compareWords_word k k', compareWords_word a b,
        compareWords_entries as bs, Ordering.then_assoc]

theorem compareWords_members (as bs : List (String × Value)) (x y : List Letter) :
    compareWords (wordOfMembers as ++ x) (wordOfMembers bs ++ y) =
      (compareMembers as bs).then (compareWords x y) := by
  cases as with
  | nil => cases bs <;> simp [wordOfMembers, compareMembers]
  | cons a as =>
    cases bs with
    | nil => simp [wordOfMembers, compareMembers]
    | cons b bs =>
      obtain ⟨k, a⟩ := a
      obtain ⟨k', b⟩ := b
      have hk : (letter (str k)).compare (letter (str k')) = Ord.compare k k' :=
        compare_letter_leaf rfl rfl
      simp only [wordOfMembers, compareMembers, List.cons_append, List.append_assoc,
        compareWords_cons_self, compareWords_cons _ _ (word a ++ _), letter] at hk ⊢
      rw [hk, compareWords_word a b, compareWords_members as bs, Ordering.then_assoc,
        Ordering.then_assoc]

end

/-- Values compare as their words. -/
theorem compare_eq_compareWords (a b : Value) :
    Value.compare a b = compareWords (word a) (word b) := by
  have h := compareWords_word a b [] []
  have hself : compareWords [] [] = .eq := Std.ReflCmp.compare_self
  rw [List.append_nil, List.append_nil, hself] at h
  cases hc : Value.compare a b <;> simp_all

instance : Std.TransCmp Value.compare where
  eq_swap := by
    intro a b
    rw [compare_eq_compareWords, compare_eq_compareWords b]
    exact Std.OrientedCmp.eq_swap
  isLE_trans := by
    intro a b c hab hbc
    rw [compare_eq_compareWords] at hab hbc ⊢
    exact Std.TransCmp.isLE_trans hab hbc

/-- Entries compare by their keys. -/
instance : Std.TransCmp fun a b : Value × Value => Value.compare a.1 b.1 where
  eq_swap := Std.OrientedCmp.eq_swap
  isLE_trans := Std.TransCmp.isLE_trans

instance : Std.TransOrd Value := inferInstanceAs (Std.TransCmp Value.compare)

/-! ## Values that compare as equal are equal -/

theorem rank_eq_of_compare {a b : Value} (h : Value.compare a b = .eq) : a.rank = b.rank := by
  refine Decidable.byContradiction fun hne => ?_
  rw [compare_of_rank_ne hne] at h
  exact hne (Std.LawfulEqOrd.eq_of_compare h)

mutual

theorem eq_of_compare {a b : Value} (h : Value.compare a b = .eq) : a = b := by
  have hrank := rank_eq_of_compare h
  cases a <;> cases b <;> first | (simp [rank] at hrank; done) | skip
  case null.null => rfl
  case bool.bool => rw [Std.LawfulEqOrd.eq_of_compare h]
  case int.int => rw [Std.LawfulEqOrd.eq_of_compare h]
  case float.float => rw [Binary64.eq_of_rank_eq (Std.LawfulEqOrd.eq_of_compare h)]
  case str.str => rw [Std.LawfulEqOrd.eq_of_compare h]
  case bytes.bytes a b =>
    have hdata : a.data.toList = b.data.toList := Std.LawfulEqOrd.eq_of_compare h
    rw [ByteArray.ext (Array.toList_inj.1 hdata)]
  case instant.instant a b =>
    obtain ⟨hseconds, hnanos⟩ := Ordering.then_eq_eq.1 h
    obtain ⟨_, _, _⟩ := a
    obtain ⟨_, _, _⟩ := b
    obtain rfl := Std.LawfulEqOrd.eq_of_compare hseconds
    obtain rfl := Std.LawfulEqOrd.eq_of_compare hnanos
    rfl
  case uuid.uuid a b =>
    have hvalue : a.value = b.value := BitVec.eq_of_toNat_eq (Std.LawfulEqOrd.eq_of_compare h)
    exact congrArg (fun value => uuid ⟨value⟩) hvalue
  case ref.ref => rw [Identity.eq_of_compare h]
  case list.list => rw [eq_of_compareItems h]
  case set.set => rw [eq_of_compareItems h]
  case tuple.tuple => rw [eq_of_compareItems h]
  case map.map => rw [eq_of_compareEntries h]
  case record.record => rw [eq_of_compareMembers h]
  termination_by structural a

theorem eq_of_compareItems {as bs : List Value} (h : compareItems as bs = .eq) : as = bs := by
  cases as with
  | nil =>
    cases bs with
    | nil => rfl
    | cons => cases h
  | cons a as =>
    cases bs with
    | nil => cases h
    | cons b bs =>
      obtain ⟨hab, hrest⟩ := Ordering.then_eq_eq.1 h
      rw [eq_of_compare hab, eq_of_compareItems hrest]
  termination_by structural as

theorem eq_of_compareEntries {as bs : List (Value × Value)} (h : compareEntries as bs = .eq) :
    as = bs := by
  cases as with
  | nil =>
    cases bs with
    | nil => rfl
    | cons => cases h
  | cons a as =>
    cases bs with
    | nil => cases h
    | cons b bs =>
      obtain ⟨k, a⟩ := a
      obtain ⟨k', b⟩ := b
      obtain ⟨hentry, hrest⟩ := Ordering.then_eq_eq.1 h
      obtain ⟨hkey, hvalue⟩ := Ordering.then_eq_eq.1 hentry
      rw [eq_of_compare hkey, eq_of_compare hvalue, eq_of_compareEntries hrest]
  termination_by structural as

theorem eq_of_compareMembers {as bs : List (String × Value)} (h : compareMembers as bs = .eq) :
    as = bs := by
  cases as with
  | nil =>
    cases bs with
    | nil => rfl
    | cons => cases h
  | cons a as =>
    cases bs with
    | nil => cases h
    | cons b bs =>
      obtain ⟨k, a⟩ := a
      obtain ⟨k', b⟩ := b
      obtain ⟨hmember, hrest⟩ := Ordering.then_eq_eq.1 h
      obtain ⟨hname, hvalue⟩ := Ordering.then_eq_eq.1 hmember
      rw [Std.LawfulEqOrd.eq_of_compare hname, eq_of_compare hvalue, eq_of_compareMembers hrest]
  termination_by structural as

end

instance : Std.LawfulEqCmp Value.compare where
  compare_self := Std.ReflCmp.compare_self
  eq_of_compare := eq_of_compare

instance : Std.LawfulEqOrd Value := inferInstanceAs (Std.LawfulEqCmp Value.compare)

theorem compare_float_eq_iff {x y : Binary64} :
    Value.compare (.float x) (.float y) = .eq ↔ x.bits = y.bits := by
  rw [Std.LawfulEqCmp.compare_eq_iff_eq]
  constructor
  · intro h
    cases h
    rfl
  · intro h
    cases x
    cases h
    rfl

/-- Values of all kinds and depths are in one total order. It turns round when the values change
places, it is transitive, and a value compares as equal to itself alone. Numbers are told apart by
their bits, so that every NaN and each of the zeros has a place of its own. -/
theorem compare_total (a b c : Value) :
    Value.compare a b = (Value.compare b a).swap ∧
      (Value.compare a b ≠ .gt → Value.compare b c ≠ .gt → Value.compare a c ≠ .gt) ∧
      (Value.compare a b = .eq ↔ a = b) ∧
      ∀ x y : Binary64, Value.compare (.float x) (.float y) = .eq ↔ x.bits = y.bits := by
  refine ⟨Std.OrientedCmp.eq_swap, fun hab hbc => ?_, Std.LawfulEqCmp.compare_eq_iff_eq,
    fun _ _ => compare_float_eq_iff⟩
  have hac : (Value.compare a c).isLE :=
    Std.TransCmp.isLE_trans (Ordering.isLE_iff_ne_gt.2 hab) (Ordering.isLE_iff_ne_gt.2 hbc)
  exact Ordering.isLE_iff_ne_gt.1 hac

end Value
end ObjectSpace
