import ObjectSpace.Json.Printer
import ObjectSpace.Proofs.Json.Escape
import ObjectSpace.Proofs.Json.Literal

/-!
# Text is cut back into its tokens

A number ends where no character of a number follows, and every other token shows its own end. So
the texts of some tokens, one behind the other, are cut into these tokens as long as no number
follows a number.
-/

namespace ObjectSpace
namespace Json

/-- The text of the token reads as the token. -/
inductive Token.Legible : Token → Prop
  | openArray : Legible .openArray
  | closeArray : Legible .closeArray
  | openObject : Legible .openObject
  | closeObject : Legible .closeObject
  | comma : Legible .comma
  | colon : Legible .colon
  | null : Legible .null
  | bool (b : Bool) : Legible (.bool b)
  | number {raw : List Char} :
    isNumber raw = true → (∀ c ∈ raw, isNumberChar c = true) → Legible (.number raw)
  | string (s : String) : Legible (.string (escape s))

def Token.isNumber : Token → Bool
  | .number _ => true
  | _ => false

/-- A text that no number goes on with. -/
def Stops (rest : List Char) : Prop := ∀ c ∈ rest.head?, isNumberChar c = false

theorem nextToken?_of_isNumberChar {c : Char} {cs : List Char} (hc : isNumberChar c = true) :
    nextToken? (c :: cs) =
      if isNumber ((c :: cs).takeWhile isNumberChar) then
        some (.number ((c :: cs).takeWhile isNumberChar), (c :: cs).dropWhile isNumberChar)
      else none := by
  unfold nextToken?
  split
  case h_11 => rfl
  all_goals
    rename_i h
    obtain ⟨rfl, _⟩ := List.cons.inj h
    exact absurd hc (by decide)

theorem nextToken?_text {t : Token} (h : t.Legible) {rest : List Char}
    (hrest : t.isNumber = true → Stops rest) : nextToken? (t.text ++ rest) = some (t, rest) := by
  cases h with
  | bool b => cases b <;> rfl
  | @number raw hnumber hraw =>
    have htake := takeWhile_append_stop hraw (hrest rfl)
    have hdrop := dropWhile_append_stop hraw (hrest rfl)
    cases raw with
    | nil => exact absurd rfl (takeWhile_ne_nil_of_isNumber hnumber)
    | cons c raw =>
      have hc := hraw c List.mem_cons_self
      rw [Token.text, List.cons_append, nextToken?_of_isNumberChar hc, ← List.cons_append, htake,
        hdrop, if_pos hnumber]
  | string s =>
    have htext : (Token.string (escape s)).text ++ rest = '"' :: (escape s ++ '"' :: rest) := by
      simp [Token.text]
    rw [htext, nextToken?, splitString_escape]
    simp [isEscaped_escape]
  | _ => rfl

theorem not_isSpace_of_isNumberChar {c : Char} (h : isNumberChar c = true) :
    isSpace c = false := by
  unfold isSpace
  simp only [Bool.or_eq_false_iff, beq_eq_false_iff_ne]
  refine ⟨⟨⟨?_, ?_⟩, ?_⟩, ?_⟩
  all_goals
    rintro rfl
    exact absurd h (by decide)

/-- No token begins with white space, and only a number with a character of a number. -/
theorem exists_head {t : Token} (h : t.Legible) : ∃ c cs, t.text = c :: cs ∧ isSpace c = false ∧
    (t.isNumber = false → isNumberChar c = false) := by
  cases h with
  | bool b => cases b <;> exact ⟨_, _, rfl, by decide, fun _ => by decide⟩
  | @number raw hnumber hraw =>
    cases raw with
    | nil => exact absurd rfl (takeWhile_ne_nil_of_isNumber hnumber)
    | cons c raw =>
      have hspace := not_isSpace_of_isNumberChar (hraw c List.mem_cons_self)
      exact ⟨c, raw, rfl, hspace, fun h => by cases h⟩
  | _ => exact ⟨_, _, rfl, by decide, fun _ => by decide⟩

theorem tokens?_text {t : Token} (h : t.Legible) {rest : List Char}
    (hrest : t.isNumber = true → Stops rest) :
    tokens? (t.text ++ rest) = (tokens? rest).map (t :: ·) := by
  have hnext := nextToken?_text h hrest
  obtain ⟨c, cs, htext, hspace, _⟩ := exists_head h
  rw [htext, List.cons_append] at hnext ⊢
  rw [tokens?, hspace, if_neg (by decide)]
  split
  case h_1 hnone =>
    rw [hnext] at hnone
    cases hnone
  case h_2 t' rest' hsome =>
    rw [hnext] at hsome
    cases hsome
    rfl

/-! ## Sequences of tokens -/

/-- The texts of the tokens are cut into the tokens. -/
def Cuts (ts : List Token) : Prop :=
  ∀ rest, Stops rest → tokens? (ts.flatMap Token.text ++ rest) = (tokens? rest).map (ts ++ ·)

theorem Cuts.nil : Cuts [] := by
  intro rest _
  simp

theorem Cuts.cons {t : Token} {ts : List Token} (ht : t.Legible) (hn : t.isNumber = false)
    (hts : Cuts ts) : Cuts (t :: ts) := by
  intro rest hrest
  have hnumber : t.isNumber = true → Stops (ts.flatMap Token.text ++ rest) := by
    rw [hn]
    exact fun h => by cases h
  rw [List.flatMap_cons, List.append_assoc, tokens?_text ht hnumber, hts rest hrest]
  simp [Function.comp_def]

theorem Cuts.number {raw : List Char} (h : (Token.number raw).Legible) :
    Cuts [.number raw] := by
  intro rest hrest
  rw [List.flatMap_singleton, tokens?_text h fun _ => hrest]
  simp

/-- Tokens that are not a number end whatever stands in front of them. -/
theorem Cuts.append {t : Token} {ts us : List Token} (hts : Cuts ts) (ht : t.Legible)
    (hn : t.isNumber = false) (hus : Cuts us) : Cuts (ts ++ t :: us) := by
  intro rest hrest
  have hstop : Stops ((t :: us).flatMap Token.text ++ rest) := by
    obtain ⟨c, cs, htext, _, hc⟩ := exists_head ht
    rw [List.flatMap_cons, htext]
    intro d hd
    obtain rfl : c = d := by simpa using hd
    exact hc hn
  rw [List.flatMap_append, List.append_assoc, hts _ hstop, (Cuts.cons ht hn hus) rest hrest]
  simp [Function.comp_def]

theorem Cuts.tokens? {ts : List Token} (h : Cuts ts) :
    Json.tokens? (ts.flatMap Token.text) = some ts := by
  have hempty : Json.tokens? [] = some [] := by
    unfold Json.tokens?
    rfl
  have hcut := h [] (by simp [Stops])
  rw [List.append_nil, hempty] at hcut
  simpa using hcut

end Json
end ObjectSpace
