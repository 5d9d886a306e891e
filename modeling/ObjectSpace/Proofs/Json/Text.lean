import ObjectSpace.Codec.Payload
import ObjectSpace.Proofs.Json.Cut
import ObjectSpace.Proofs.Json.Number
import ObjectSpace.Proofs.Json.WellFormed

/-!
# Documents read back

A document whose numbers can be held and whose objects are in key order is printed as a text that
reads as this document, as long as it does not nest too deeply to be read.
-/

namespace ObjectSpace
namespace Json

/-! ## What text holds -/

/-- A document that can be held, with the members of its objects in key order. -/
inductive Printable : Json → Prop
  | null : Printable null
  | bool (b : Bool) : Printable (bool b)
  | int {n : Int} : isInt n = true → Printable (int n)
  | float {x : Binary64} : x.isFinite = true → Printable (float x)
  | str (s : String) : Printable (str s)
  | arr {items : List Json} : (∀ j ∈ items, Printable j) → Printable (arr items)
  | obj {members : List (String × Json)} : Entries.Increasing members →
    (∀ m ∈ members, Printable m.2) → Printable (obj members)

theorem Printable.wellFormed {j : Json} (h : Printable j) : WellFormed j := by
  induction h with
  | null => exact .null
  | bool b => exact .bool b
  | int hn => exact .int hn
  | float hx => exact .float hx
  | str s => exact .str s
  | arr _ ih => exact .arr ih
  | obj _ _ ih => exact .obj ih

theorem Printable.object {members : List (String × Json)} (h : ∀ m ∈ members, Printable m.2) :
    Printable (object members) := by
  refine .obj (Entries.increasing_ofList members) ?_
  intro m hm
  obtain ⟨m', hm', hv⟩ := Entries.exists_mem_of_mem_ofList hm
  exact hv ▸ h m' hm'

mutual

/-- How many arrays and objects stand in each other. -/
def depth : Json → Nat
  | .arr items => itemDepth items + 1
  | .obj members => memberDepth members + 1
  | _ => 0

def itemDepth : List Json → Nat
  | [] => 0
  | j :: js => max (depth j) (itemDepth js)

def memberDepth : List (String × Json) → Nat
  | [] => 0
  | (_, j) :: ms => max (depth j) (memberDepth ms)

end

mutual

/-- The document as it is written. -/
def raw : Json → Raw
  | .null => .null
  | .bool b => .bool b
  | .int n => .number (Integer.text n).toList
  | .float x => if x.isFinite then .number (numberText x) else .null
  | .str s => .string (escape s)
  | .arr items => .array (rawItems items)
  | .obj members => .object (rawMembers members)

def rawItems : List Json → List Raw
  | [] => []
  | j :: js => raw j :: rawItems js

def rawMembers : List (String × Json) → List (List Char × Raw)
  | [] => []
  | (k, j) :: ms => (escape k, raw j) :: rawMembers ms

end

/-! ## Items and members -/

theorem itemTokens_cons_cons (j j' : Json) (js : List Json) :
    itemTokens (j :: j' :: js) = tokens j ++ .comma :: itemTokens (j' :: js) := rfl

theorem memberTokens_singleton (k : String) (j : Json) :
    memberTokens [(k, j)] = .string (escape k) :: .colon :: tokens j := rfl

theorem memberTokens_cons_cons (k : String) (j : Json) (m : String × Json)
    (ms : List (String × Json)) : memberTokens ((k, j) :: m :: ms) =
      .string (escape k) :: .colon :: (tokens j ++ .comma :: memberTokens (m :: ms)) := rfl

/-- A document begins with a token that begins a value. -/
theorem tokens_eq_cons (j : Json) : ∃ t ts, tokens j = t :: ts ∧ t ≠ .closeArray := by
  cases j with
  | float x =>
    rw [tokens]
    split <;> exact ⟨_, _, rfl, by simp⟩
  | _ => exact ⟨_, _, rfl, by simp⟩

theorem itemTokens_eq_cons (j : Json) (js : List Json) :
    ∃ t ts, itemTokens (j :: js) = t :: ts ∧ t ≠ .closeArray := by
  obtain ⟨t, ts, hts, ht⟩ := tokens_eq_cons j
  cases js with
  | nil => exact ⟨t, ts, hts, ht⟩
  | cons j' js => exact ⟨t, _, by rw [itemTokens_cons_cons, hts, List.cons_append], ht⟩

theorem memberTokens_eq_cons (k : String) (j : Json) (ms : List (String × Json)) :
    ∃ ts, memberTokens ((k, j) :: ms) = .string (escape k) :: ts := by
  cases ms with
  | nil => exact ⟨_, rfl⟩
  | cons m ms => exact ⟨_, rfl⟩

/-! ## Cutting -/

theorem cuts_items {items : List Json} (h : ∀ j ∈ items, Cuts (tokens j)) :
    Cuts (itemTokens items) := by
  induction items with
  | nil => exact .nil
  | cons j js ih =>
    obtain ⟨hj, hjs⟩ := List.forall_mem_cons.1 h
    cases js with
    | nil => exact hj
    | cons j' js => exact hj.append .comma rfl (ih hjs)

theorem cuts_members {members : List (String × Json)} (h : ∀ m ∈ members, Cuts (tokens m.2)) :
    Cuts (memberTokens members) := by
  induction members with
  | nil => exact .nil
  | cons m ms ih =>
    obtain ⟨k, j⟩ := m
    obtain ⟨hj, hms⟩ := List.forall_mem_cons.1 h
    cases ms with
    | nil => exact .cons (.string k) rfl (.cons .colon rfl hj)
    | cons m' ms => exact .cons (.string k) rfl (.cons .colon rfl (hj.append .comma rfl (ih hms)))

theorem WellFormed.cuts {j : Json} (h : WellFormed j) : Cuts (tokens j) := by
  induction h with
  | null => exact .cons .null rfl .nil
  | bool b => exact .cons (.bool b) rfl .nil
  | @int n _ => exact .number (.number (isNumber_text n).1 (isNumber_text n).2)
  | float hx =>
    obtain ⟨hnumber, hchars⟩ := isNumber_numberText hx
    rw [tokens, if_pos hx]
    exact .number (.number hnumber hchars)
  | str s => exact .cons (.string s) rfl .nil
  | arr _ ih => exact .cons .openArray rfl ((cuts_items ih).append .closeArray rfl .nil)
  | obj _ ih => exact .cons .openObject rfl ((cuts_members ih).append .closeObject rfl .nil)

/-! ## Building -/

namespace Raw

/-- The machine takes the tokens of the document for the document. -/
def Builds (j : Json) : Prop :=
  ∀ ts stack, run (tokens j ++ ts) .value stack = run ts (.follow (raw j)) stack

theorem run_cons {t : Token} {e e' : Expectation} {stack stack' : List Frame}
    (h : step t e stack = some (e', stack')) (ts : List Token) :
    run (t :: ts) e stack = run ts e' stack' := by
  rw [run, h]
  rfl

theorem run_items {j : Json} {js : List Json} (h : ∀ j' ∈ j :: js, Builds j') (done : List Raw)
    (ts : List Token) (stack : List Frame) :
    run (itemTokens (j :: js) ++ .closeArray :: ts) .value (.array done :: stack) =
      run ts (.follow (.array (done.reverse ++ rawItems (j :: js)))) stack := by
  induction js generalizing j done with
  | nil =>
    have hclose : step .closeArray (.follow (raw j)) (.array done :: stack) =
        some (.follow (.array (done.reverse ++ rawItems [j])), stack) := by
      simp [step, close, rawItems]
    rw [itemTokens, (List.forall_mem_cons.1 h).1, run_cons hclose]
  | cons j' js ih =>
    obtain ⟨hj, hjs⟩ := List.forall_mem_cons.1 h
    have hcomma : step .comma (.follow (raw j)) (.array done :: stack) =
        some (.value, .array (raw j :: done) :: stack) := rfl
    rw [itemTokens_cons_cons, List.append_assoc, hj, List.cons_append, run_cons hcomma, ih hjs]
    simp [rawItems]

theorem run_members {m : String × Json} {ms : List (String × Json)}
    (h : ∀ m' ∈ m :: ms, Builds m'.2) (done : List (List Char × Raw))
    (ts : List Token) (stack : List Frame) :
    run (memberTokens (m :: ms) ++ .closeObject :: ts) (.key done) stack =
      run ts (.follow (.object (done.reverse ++ rawMembers (m :: ms)))) stack := by
  induction ms generalizing m done with
  | nil =>
    obtain ⟨k, j⟩ := m
    have hkey : step (.string (escape k)) (.key done) stack =
        some (.colon done (escape k), stack) := rfl
    have hcolon : step .colon (.colon done (escape k)) stack =
        some (.value, .object done (escape k) :: stack) := rfl
    have hclose : step .closeObject (.follow (raw j)) (.object done (escape k) :: stack) =
        some (.follow (.object (done.reverse ++ rawMembers [(k, j)])), stack) := by
      simp [step, close, rawMembers]
    rw [memberTokens_singleton, List.cons_append, List.cons_append, run_cons hkey,
      run_cons hcolon, (List.forall_mem_cons.1 h).1, run_cons hclose]
  | cons m' ms ih =>
    obtain ⟨k, j⟩ := m
    obtain ⟨hj, hms⟩ := List.forall_mem_cons.1 h
    have hkey : step (.string (escape k)) (.key done) stack =
        some (.colon done (escape k), stack) := rfl
    have hcolon : step .colon (.colon done (escape k)) stack =
        some (.value, .object done (escape k) :: stack) := rfl
    have hcomma : step .comma (.follow (raw j)) (.object done (escape k) :: stack) =
        some (.key ((escape k, raw j) :: done), stack) := rfl
    rw [memberTokens_cons_cons, List.cons_append, List.cons_append, run_cons hkey,
      run_cons hcolon, List.append_assoc, hj, List.cons_append, run_cons hcomma, ih hms]
    simp [rawMembers]

theorem builds {j : Json} (h : WellFormed j) : Builds j := by
  induction h with
  | float hx =>
    intro ts stack
    rw [tokens, raw, if_pos hx, if_pos hx]
    rfl
  | @arr items _ ih =>
    intro ts stack
    cases items with
    | nil => rfl
    | cons j js =>
      obtain ⟨t, us, hus, ht⟩ := itemTokens_eq_cons j js
      have hrun := run_items ih [] ts stack
      have hopen : step .openArray .value stack = some (.firstItem, stack) := rfl
      -- the first token of an item does the same as behind a comma
      have hfirst : step t .firstItem stack = step t .value (.array [] :: stack) := if_neg ht
      rw [hus, List.cons_append, run, ← hfirst] at hrun
      rw [tokens, List.cons_append, run_cons hopen, hus, List.append_assoc, List.cons_append, run]
      exact hrun
  | @obj members _ ih =>
    intro ts stack
    cases members with
    | nil => rfl
    | cons m ms =>
      obtain ⟨k, j⟩ := m
      obtain ⟨us, hus⟩ := memberTokens_eq_cons k j ms
      have hrun := run_members ih [] ts stack
      have hopen : step .openObject .value stack = some (.firstKey, stack) := rfl
      have hfirst : step (.string (escape k)) .firstKey stack =
          step (.string (escape k)) (.key []) stack := rfl
      rw [hus, List.cons_append, run, ← hfirst] at hrun
      rw [tokens, List.cons_append, run_cons hopen, hus, List.append_assoc, List.cons_append, run]
      exact hrun
  | _ => exact fun ts stack => rfl

theorem ofTokens?_tokens {j : Json} (h : WellFormed j) : ofTokens? (tokens j) = some (raw j) := by
  have hrun := builds h [] []
  rw [List.append_nil] at hrun
  exact hrun

/-- The structure of a document is read out of its text, in whatever order its members stand. -/
theorem ofText?_text {j : Json} (h : WellFormed j) : ofText? j.text = some (raw j) := by
  have htokens : tokens? j.text.toList = some (tokens j) := by
    rw [text, String.toList_ofList]
    exact h.cuts.tokens?
  unfold ofText?
  rw [htokens]
  exact ofTokens?_tokens h

/-! ## Reading -/

theorem items?_raw {items : List Json} {d : Nat}
    (h : ∀ j ∈ items, j.depth ≤ d → json? d (raw j) = some j) (hd : itemDepth items ≤ d) :
    items? d (rawItems items) = some items := by
  induction items with
  | nil => rfl
  | cons j js ih =>
    obtain ⟨hj, hjs⟩ := List.forall_mem_cons.1 h
    obtain ⟨hdj, hdjs⟩ := Nat.max_le.1 hd
    rw [rawItems, items?, hj hdj, ih hjs hdjs]
    rfl

theorem members?_raw {members : List (String × Json)} {d : Nat}
    (h : ∀ m ∈ members, m.2.depth ≤ d → json? d (raw m.2) = some m.2)
    (hd : memberDepth members ≤ d) : members? d (rawMembers members) = some members := by
  induction members with
  | nil => rfl
  | cons m ms ih =>
    obtain ⟨k, j⟩ := m
    obtain ⟨hj, hms⟩ := List.forall_mem_cons.1 h
    obtain ⟨hdj, hdms⟩ := Nat.max_le.1 hd
    rw [rawMembers, members?, unescape_escape, hj hdj, ih hms hdms]
    simp [String.ofList_toList]

theorem json?_raw {j : Json} (h : Printable j) {d : Nat} (hd : j.depth ≤ d) :
    json? d (raw j) = some j := by
  induction h generalizing d with
  | null => rfl
  | bool b => rfl
  | int hn => exact number?_text hn
  | float hx =>
    rw [raw, if_pos hx]
    exact number?_numberText hx
  | str s =>
    rw [raw, json?, unescape_escape]
    simp [String.ofList_toList]
  | arr _ ih =>
    rw [depth] at hd
    rw [raw, json?, if_neg (by omega), items?_raw (fun j hj => ih j hj) (by omega)]
    rfl
  | obj hkeys _ ih =>
    rw [depth] at hd
    rw [raw, json?, if_neg (by omega), members?_raw (fun m hm => ih m hm) (by omega)]
    simp [Json.object, Entries.ofList_of_perm (List.Perm.refl _) hkeys]

end Raw

/-- A document reads back out of its text. -/
theorem ofText?_text {j : Json} (h : Printable j) (hd : j.depth ≤ Raw.maxDepth) :
    ofText? j.text = some j := by
  unfold ofText?
  rw [Raw.ofText?_text h.wellFormed]
  exact Raw.json?_raw h hd

theorem fromUTF8?_toUTF8 (s : String) : String.fromUTF8? s.toUTF8 = some s := dif_pos s.isValidUTF8

theorem ofBytes?_text {j : Json} (h : Printable j) (hd : j.depth ≤ Raw.maxDepth) :
    ofBytes? j.text.toUTF8 = some j := by
  rw [ofBytes?, fromUTF8?_toUTF8]
  exact ofText?_text h hd

/-! ## Text is not blank -/

theorem isAsciiBlank_eq_false {b : UInt8} (h : 32 < b.toNat) : Text.isAsciiBlank b = false := by
  have hne : ∀ n : UInt8, n.toNat ≤ 32 → (b == n) = false := by
    intro n hn
    rw [beq_eq_false_iff_ne]
    rintro rfl
    omega
  simp only [Text.isAsciiBlank, hne 0x09 (by decide), hne 0x0A (by decide), hne 0x0C (by decide),
    hne 0x0D (by decide), hne 0x20 (by decide), Bool.or_false]

theorem toNat_of_isNumberChar {c : Char} (h : isNumberChar c = true) :
    32 < c.toNat ∧ c.toNat < 128 := by
  unfold isNumberChar at h
  simp only [Bool.or_eq_true, beq_iff_eq] at h
  rcases h with ((((h | rfl) | rfl) | rfl) | rfl) | rfl
  · obtain ⟨hlow, hhigh⟩ := Bool.and_eq_true_iff.1 h
    have hlow : 48 ≤ c.toNat := of_decide_eq_true hlow
    have hhigh : c.toNat ≤ 57 := of_decide_eq_true hhigh
    omega
  all_goals decide

theorem utf8_of_isNumberChar {c : Char} (h : isNumberChar c = true) :
    ∃ b, String.utf8EncodeChar c = [b] ∧ Text.isAsciiBlank b = false := by
  obtain ⟨hlow, hhigh⟩ := toNat_of_isNumberChar h
  have hsize : c.utf8Size = 1 := by
    rw [Char.utf8Size_eq_one_iff, UInt32.le_iff_toNat_le]
    exact Nat.le_of_lt_succ hhigh
  refine ⟨_, String.utf8EncodeChar_eq_singleton hsize, isAsciiBlank_eq_false ?_⟩
  rw [UInt32.toNat_toUInt8]
  have hmod : c.val.toNat % 2 ^ 8 = c.val.toNat := Nat.mod_eq_of_lt (by
    have hc : c.val.toNat < 128 := hhigh
    omega)
  rw [hmod]
  exact hlow

theorem Token.Legible.utf8 {t : Token} (h : t.Legible) : ∃ b bs,
    t.text.flatMap String.utf8EncodeChar = b :: bs ∧ Text.isAsciiBlank b = false := by
  cases h with
  | bool b => cases b <;> exact ⟨_, _, rfl, by decide⟩
  | @number raw hnumber hraw =>
    cases raw with
    | nil => exact absurd rfl (takeWhile_ne_nil_of_isNumber hnumber)
    | cons c raw =>
      obtain ⟨b, hb, hblank⟩ := utf8_of_isNumberChar (hraw c List.mem_cons_self)
      exact ⟨b, _, by rw [Token.text, List.flatMap_cons, hb]; rfl, hblank⟩
  | _ => exact ⟨_, _, rfl, by decide⟩

theorem Printable.exists_legible {j : Json} (h : Printable j) :
    ∃ t ts, tokens j = t :: ts ∧ t.Legible := by
  cases h with
  | bool b => exact ⟨_, _, rfl, .bool b⟩
  | @int n _ => exact ⟨_, _, rfl, .number (isNumber_text n).1 (isNumber_text n).2⟩
  | float hx =>
    obtain ⟨hnumber, hchars⟩ := isNumber_numberText hx
    rw [tokens, if_pos hx]
    exact ⟨_, _, rfl, .number hnumber hchars⟩
  | str s => exact ⟨_, _, rfl, .string s⟩
  | null => exact ⟨_, _, rfl, .null⟩
  | arr => exact ⟨_, _, rfl, .openArray⟩
  | obj => exact ⟨_, _, rfl, .openObject⟩

/-- A document is never taken for the absence of one. -/
theorem isBlank_text {j : Json} (h : Printable j) : Payload.isBlank j.text.toUTF8 = false := by
  obtain ⟨t, ts, hts, ht⟩ := h.exists_legible
  obtain ⟨b, bs, hb, hblank⟩ := ht.utf8
  have hbytes : j.text.toUTF8.data.toList =
      b :: (bs ++ (ts.flatMap Token.text).flatMap String.utf8EncodeChar) := by
    have hutf8 : j.text.toUTF8.data.toList =
        ((tokens j).flatMap Token.text).flatMap String.utf8EncodeChar := by
      simp [text, List.utf8Encode]
    rw [hutf8, hts, List.flatMap_cons, List.flatMap_append, hb, List.cons_append]
  rw [Payload.isBlank, ← Array.all_toList, hbytes, List.all_cons, hblank, Bool.false_and]

end Json

theorem Payload.document_eq_ok {reason : String} {bytes : ByteArray} {j : Json} :
    document reason bytes = .ok j ↔ Json.ofBytes? bytes = some j := by
  unfold document
  cases Json.ofBytes? bytes <;> simp

end ObjectSpace
