import ObjectSpace.Json.Token
import ObjectSpace.Proofs.Text.Integer

/-!
# Literals

Whole numbers and the shortest decimals of finite numbers are written as literals of one form:
digits, a fraction and an exponent. A literal of this form is a number of JSON, and reads as the
decimal that its digits and its exponent stand for.
-/

namespace ObjectSpace

theorem takeWhile_append_stop {p : Char → Bool} {cs rest : List Char}
    (hcs : ∀ c ∈ cs, p c = true) (hrest : ∀ c ∈ rest.head?, p c = false) :
    (cs ++ rest).takeWhile p = cs := by
  rw [List.takeWhile_append_of_pos hcs]
  cases rest with
  | nil => simp
  | cons c rest => rw [List.takeWhile_cons_of_neg (by simp [hrest c rfl]), List.append_nil]

theorem dropWhile_append_stop {p : Char → Bool} {cs rest : List Char}
    (hcs : ∀ c ∈ cs, p c = true) (hrest : ∀ c ∈ rest.head?, p c = false) :
    (cs ++ rest).dropWhile p = rest := by
  rw [List.dropWhile_append_of_pos hcs]
  cases rest with
  | nil => rfl
  | cons c rest => rw [List.dropWhile_cons_of_neg (by simp [hrest c rfl])]

namespace Json

/-! ## Literals -/

/-- The point and the digits behind it, if there are any. -/
def fractionText (fraction : List Char) : List Char :=
  if fraction.isEmpty then [] else '.' :: fraction

/-- The exponent, if there is one. -/
inductive ExponentText : List Char → Int → Prop
  | absent : ExponentText [] 0
  | present (e : Int) :
    ExponentText ('e' :: (if e < 0 then '-' else '+') :: Nat.toDigits 10 e.natAbs) e

/-- The literal `cs` stands for `n * 10 ^ k`. -/
inductive Literal : List Char → Nat → Int → Prop
  | mk {whole fraction mark : List Char} {e : Int} :
    whole ≠ [] → (∀ c ∈ whole, c.isDigit = true) → (whole = ['0'] ∨ whole.head? ≠ some '0') →
    (∀ c ∈ fraction, c.isDigit = true) → ExponentText mark e →
    Literal (whole ++ (fractionText fraction ++ mark)) (Nat.ofDigitChars 10 (whole ++ fraction) 0)
      (e - fraction.length)

theorem ExponentText.head {mark : List Char} {e : Int} (h : ExponentText mark e) :
    ∀ c ∈ mark.head?, c = 'e' := by
  cases h with
  | absent => simp
  | present e => simp

theorem ExponentText.head_not_digit {mark : List Char} {e : Int} (h : ExponentText mark e) :
    ∀ c ∈ mark.head?, c.isDigit = false := by
  intro c hc
  rw [h.head c hc]
  decide

theorem fractionText_head_not_digit {fraction mark : List Char} {e : Int}
    (h : ExponentText mark e) : ∀ c ∈ (fractionText fraction ++ mark).head?, c.isDigit = false := by
  unfold fractionText
  split
  · exact h.head_not_digit
  · intro c hc
    obtain rfl : '.' = c := by simpa using hc
    decide

theorem exponentOfChars?_mark {mark : List Char} {e : Int} (h : ExponentText mark e) :
    Binary64.Decimal.exponentOfChars? mark = some e := by
  cases h with
  | absent => rfl
  | present e =>
    have hread := Integer.natOfDigits?_toDigits e.natAbs
    change Integer.ofChars? ((if e < 0 then '-' else '+') :: Nat.toDigits 10 e.natAbs) = some e
    split
    case isTrue he =>
      have hneg : -(e.natAbs : Int) = e := by omega
      rw [Integer.ofChars?, hread]
      exact congrArg some hneg
    case isFalse he =>
      have hpos : (e.natAbs : Int) = e := by omega
      rw [Integer.ofChars?, hread]
      exact congrArg some hpos

theorem unsignedOfChars?_point {cs tail : List Char} (h : cs.dropWhile Char.isDigit = '.' :: tail) :
    Binary64.Decimal.unsignedOfChars? cs = (do
      let digits ← Integer.natOfDigits? (cs.takeWhile Char.isDigit ++ tail.takeWhile Char.isDigit)
      let exponent ← Binary64.Decimal.exponentOfChars? (tail.dropWhile Char.isDigit)
      some (digits, exponent - (tail.takeWhile Char.isDigit).length)) := by
  unfold Binary64.Decimal.unsignedOfChars?
  rw [h]
  rfl

theorem unsignedOfChars?_whole {cs : List Char}
    (h : ∀ c ∈ (cs.dropWhile Char.isDigit).head?, c ≠ '.') :
    Binary64.Decimal.unsignedOfChars? cs = (do
      let digits ← Integer.natOfDigits? (cs.takeWhile Char.isDigit)
      let exponent ← Binary64.Decimal.exponentOfChars? (cs.dropWhile Char.isDigit)
      some (digits, exponent)) := by
  unfold Binary64.Decimal.unsignedOfChars?
  dsimp only
  generalize cs.dropWhile Char.isDigit = rest at h ⊢
  split
  case h_1 tail => exact absurd rfl (h '.' rfl)
  case h_2 => simp

/-- The digits around the point, as one number, with the exponent of the last one. -/
theorem Literal.unsignedOfChars? {cs : List Char} {n : Nat} {k : Int} (h : Literal cs n k) :
    Binary64.Decimal.unsignedOfChars? cs = some (n, k) := by
  cases h with
  | @mk whole fraction mark e hne hwhole _ hfraction hmark =>
    have hstop : ∀ c ∈ (fractionText fraction ++ mark).head?, c.isDigit = false :=
      fractionText_head_not_digit hmark
    have hdigits : ∀ c ∈ whole ++ fraction, c.isDigit = true := by
      intro c hc
      exact (List.mem_append.1 hc).elim (hwhole c) (hfraction c)
    have hread : Integer.natOfDigits? (whole ++ fraction) = _ :=
      Integer.natOfDigits?_eq (List.append_ne_nil_of_left_ne_nil hne _) hdigits
    have htake := takeWhile_append_stop hwhole hstop
    have hdrop := dropWhile_append_stop hwhole hstop
    cases fraction with
    | nil =>
      have hpoint : ∀ c ∈ mark.head?, c ≠ '.' := by
        intro c hc
        rw [hmark.head c hc]
        decide
      rw [unsignedOfChars?_whole (by rw [hdrop]; exact hpoint), htake, hdrop]
      rw [List.append_nil] at hread
      simp [fractionText, hread, exponentOfChars?_mark hmark]
    | cons d fraction =>
      have htail : fractionText (d :: fraction) ++ mark = '.' :: (d :: fraction ++ mark) := rfl
      rw [unsignedOfChars?_point (hdrop.trans htail), htake,
        takeWhile_append_stop hfraction hmark.head_not_digit,
        dropWhile_append_stop hfraction hmark.head_not_digit, hread, exponentOfChars?_mark hmark]
      rfl

/-! ## Literals are numbers -/

theorem afterDigits?_append {cs rest : List Char} (hne : cs ≠ [])
    (hcs : ∀ c ∈ cs, c.isDigit = true) (hrest : ∀ c ∈ rest.head?, c.isDigit = false) :
    afterDigits? (cs ++ rest) = some rest := by
  unfold afterDigits?
  rw [takeWhile_append_stop hcs hrest, dropWhile_append_stop hcs hrest, if_neg (by simpa using hne)]

theorem afterWhole?_append {whole rest : List Char} (hne : whole ≠ [])
    (hwhole : ∀ c ∈ whole, c.isDigit = true) (hzero : whole = ['0'] ∨ whole.head? ≠ some '0')
    (hrest : ∀ c ∈ rest.head?, c.isDigit = false) : afterWhole? (whole ++ rest) = some rest := by
  rcases hzero with rfl | hzero
  · rfl
  · unfold afterWhole?
    split
    case h_1 tail h =>
      cases whole with
      | nil => exact absurd rfl hne
      | cons c whole => simp_all
    case h_2 => exact afterDigits?_append hne hwhole hrest

theorem afterFraction?_append {fraction mark : List Char} {e : Int}
    (hfraction : ∀ c ∈ fraction, c.isDigit = true) (hmark : ExponentText mark e) :
    afterFraction? (fractionText fraction ++ mark) = some mark := by
  cases fraction with
  | nil =>
    unfold afterFraction?
    split
    case h_1 tail h =>
      have hpoint := hmark.head '.' (by
        have h' : mark = '.' :: tail := h
        simp [h'])
      exact absurd hpoint (by decide)
    case h_2 => rfl
  | cons d fraction =>
    exact afterDigits?_append (List.cons_ne_nil d fraction) hfraction hmark.head_not_digit

theorem afterExponent?_mark {mark : List Char} {e : Int} (h : ExponentText mark e) :
    afterExponent? mark = some [] := by
  cases h with
  | absent => rfl
  | present e =>
    have hdigits : afterDigits? (Nat.toDigits 10 e.natAbs ++ []) = some [] :=
      afterDigits?_append (Integer.toDigits_ne_nil e.natAbs) Integer.isDigit_of_mem (by simp)
    rw [List.append_nil] at hdigits
    split
    · exact hdigits
    · exact hdigits

theorem Literal.after {cs : List Char} {n : Nat} {k : Int} (h : Literal cs n k) :
    (afterWhole? cs >>= afterFraction? >>= afterExponent?) = some [] := by
  cases h with
  | mk hne hwhole hzero hfraction hmark =>
    rw [afterWhole?_append hne hwhole hzero (fractionText_head_not_digit hmark)]
    simp only [Option.bind_eq_bind, Option.bind_some, afterFraction?_append hfraction hmark,
      afterExponent?_mark hmark]

/-- A literal begins with a digit. -/
theorem Literal.exists_digit {cs : List Char} {n : Nat} {k : Int} (h : Literal cs n k) :
    ∃ c rest, cs = c :: rest ∧ c.isDigit = true := by
  cases h with
  | @mk whole fraction mark e hne hwhole _ _ _ =>
    cases whole with
    | nil => exact absurd rfl hne
    | cons c whole => exact ⟨c, _, rfl, hwhole c List.mem_cons_self⟩

theorem isNumberChar_of_isDigit {c : Char} (h : c.isDigit = true) : isNumberChar c = true := by
  simp [isNumberChar, h]

theorem Literal.isNumberChar {cs : List Char} {n : Nat} {k : Int} (h : Literal cs n k) :
    ∀ c ∈ cs, isNumberChar c = true := by
  cases h with
  | @mk whole fraction mark e _ hwhole _ hfraction hmark =>
    have hdot : ∀ c ∈ fractionText fraction, Json.isNumberChar c = true := by
      unfold fractionText
      split
      · simp
      · refine List.forall_mem_cons.2 ⟨by decide, ?_⟩
        exact fun c hc => isNumberChar_of_isDigit (hfraction c hc)
    have hexponent : ∀ c ∈ mark, Json.isNumberChar c = true := by
      cases hmark with
      | absent => simp
      | present e =>
        refine List.forall_mem_cons.2 ⟨by decide, List.forall_mem_cons.2 ⟨?_, ?_⟩⟩
        · split <;> decide
        · exact fun c hc => isNumberChar_of_isDigit (Integer.isDigit_of_mem c hc)
    intro c hc
    rcases List.mem_append.1 hc with hc | hc
    · exact isNumberChar_of_isDigit (hwhole c hc)
    · exact (List.mem_append.1 hc).elim (hdot c) (hexponent c)

/-- A literal with its sign. -/
def signedText (negative : Bool) (cs : List Char) : List Char :=
  if negative then '-' :: cs else cs

theorem Literal.isNumber {cs : List Char} {n : Nat} {k : Int} (h : Literal cs n k)
    (negative : Bool) : isNumber (signedText negative cs) = true := by
  have hafter := h.after
  unfold Json.isNumber signedText
  cases negative with
  | true => exact beq_iff_eq.2 hafter
  | false =>
    obtain ⟨c, rest, rfl, hc⟩ := h.exists_digit
    simp only [Bool.false_eq_true, if_false]
    split
    case h_1 heq =>
      obtain ⟨rfl, _⟩ := List.cons.inj heq
      exact absurd hc (by decide)
    case h_2 => exact beq_iff_eq.2 hafter

theorem Literal.isNumberChar_signed {cs : List Char} {n : Nat} {k : Int} (h : Literal cs n k)
    (negative : Bool) : ∀ c ∈ signedText negative cs, Json.isNumberChar c = true := by
  unfold signedText
  split
  · exact List.forall_mem_cons.2 ⟨by decide, h.isNumberChar⟩
  · exact h.isNumberChar

theorem Literal.ofChars? {cs : List Char} {n : Nat} {k : Int} (h : Literal cs n k)
    (negative : Bool) :
    Binary64.ofChars? (signedText negative cs) = some (.ofDecimal ⟨negative, n, k⟩) := by
  have hread := h.unsignedOfChars?
  unfold Binary64.ofChars? Binary64.Decimal.ofChars? signedText
  cases negative with
  | true => simp [hread]
  | false =>
    obtain ⟨c, rest, rfl, hc⟩ := h.exists_digit
    simp only [Bool.false_eq_true, if_false]
    split
    case h_1 heq =>
      obtain ⟨rfl, _⟩ := List.cons.inj heq
      exact absurd hc (by decide)
    case h_2 heq =>
      obtain ⟨rfl, _⟩ := List.cons.inj heq
      exact absurd hc (by decide)
    case h_3 => simp [hread]

end Json
end ObjectSpace
