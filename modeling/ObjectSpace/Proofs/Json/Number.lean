import ObjectSpace.Json.Printer
import ObjectSpace.Json.Raw
import ObjectSpace.Proofs.Binary64.Shortest
import ObjectSpace.Proofs.Json.Literal

/-!
# Numbers read back

The text of a whole number is a literal without fraction and exponent, so it is held exactly. The
text of a finite number has a point or an exponent, and stands for its shortest decimal.
-/

namespace ObjectSpace
namespace Json

theorem toDigits_head {n : Nat} (h : 0 < n) : (Nat.toDigits 10 n).head? ≠ some '0' := by
  induction n using Nat.strongRecOn with
  | ind n ih =>
    rw [Nat.toDigits_eq_if (by decide)]
    split
    case isTrue hn =>
      have hall : ∀ n < 10, 0 < n → [Nat.digitChar n].head? ≠ some '0' := by decide
      exact hall n hn h
    case isFalse hn =>
      rw [List.head?_append_of_ne_nil _ (Integer.toDigits_ne_nil _)]
      exact ih (n / 10) (by omega) (by omega)

theorem literal_toDigits (n : Nat) : Literal (Nat.toDigits 10 n) n 0 := by
  have hzero : Nat.toDigits 10 n = ['0'] ∨ (Nat.toDigits 10 n).head? ≠ some '0' := by
    rcases Nat.eq_zero_or_pos n with rfl | hn
    · exact .inl rfl
    · exact .inr (toDigits_head hn)
  have h := Literal.mk (Integer.toDigits_ne_nil n) Integer.isDigit_of_mem hzero
    (List.forall_mem_nil _) .absent
  simpa [fractionText, Nat.ofDigitChars_ten_toDigits] using h

/-- The text of a whole number with its sign. -/
theorem text_eq_signedText (n : Int) :
    (Integer.text n).toList = signedText (n < 0) (Nat.toDigits 10 n.natAbs) := by
  cases n with
  | ofNat n =>
    have hsign : ¬Int.ofNat n < 0 := by simp
    rw [signedText, decide_eq_false hsign]
    exact Integer.text_natCast n
  | negSucc n =>
    rw [signedText, decide_eq_true (Int.negSucc_lt_zero n)]
    exact Integer.text_negSucc n

/-! ## The forms of a decimal -/

section Forms

variable {ds : List Char}

theorem isDigit_of_mem_replicate {j : Nat} : ∀ c ∈ List.replicate j '0', c.isDigit = true := by
  intro c hc
  rw [List.eq_of_mem_replicate hc]
  decide

theorem literal_below_one (hne : ds ≠ []) (hds : ∀ c ∈ ds, c.isDigit = true) (j : Nat) :
    Literal ('0' :: '.' :: (List.replicate j '0' ++ ds)) (Nat.ofDigitChars 10 ds 0)
      (-(j + ds.length : Nat)) := by
  have h := @Literal.mk ['0'] (List.replicate j '0' ++ ds) [] 0 (List.cons_ne_nil _ _)
    (isDigit_of_mem_replicate (j := 1)) (.inl rfl)
    (fun c hc => (List.mem_append.1 hc).elim (isDigit_of_mem_replicate c) (hds c)) .absent
  have hvalue : Nat.ofDigitChars 10 (['0'] ++ (List.replicate j '0' ++ ds)) 0 =
      Nat.ofDigitChars 10 ds 0 := by
    rw [Nat.ofDigitChars_append, Nat.ofDigitChars_append, Nat.ofDigitChars_replicate_zero]
    rfl
  rw [hvalue] at h
  simpa [fractionText, hne] using h

theorem literal_whole (hne : ds ≠ []) (hds : ∀ c ∈ ds, c.isDigit = true) {j : Nat}
    (hzero : ds = ['0'] ∧ j = 0 ∨ ds.head? ≠ some '0') :
    Literal (ds ++ List.replicate j '0' ++ ['.', '0'])
      (10 ^ (j + 1) * Nat.ofDigitChars 10 ds 0) (-1) := by
  have hzero' : ds ++ List.replicate j '0' = ['0'] ∨
      (ds ++ List.replicate j '0').head? ≠ some '0' := by
    rcases hzero with ⟨rfl, rfl⟩ | hzero
    · exact .inl rfl
    · rw [List.head?_append_of_ne_nil _ hne]
      exact .inr hzero
  have h := @Literal.mk (ds ++ List.replicate j '0') ['0'] [] 0
    (List.append_ne_nil_of_left_ne_nil hne _)
    (fun c hc => (List.mem_append.1 hc).elim (hds c) (isDigit_of_mem_replicate c)) hzero'
    (isDigit_of_mem_replicate (j := 1)) .absent
  have hvalue : Nat.ofDigitChars 10 (ds ++ List.replicate j '0' ++ ['0']) 0 =
      10 ^ (j + 1) * Nat.ofDigitChars 10 ds 0 := by
    have hlast : ['0'] = List.replicate 1 '0' := rfl
    rw [hlast, List.append_assoc, List.replicate_append_replicate, Nat.ofDigitChars_append,
      Nat.ofDigitChars_replicate_zero]
  rwa [hvalue] at h

theorem literal_split (hds : ∀ c ∈ ds, c.isDigit = true) (hzero : ds.head? ≠ some '0') {j : Nat}
    (hj : 0 < j) (hlt : j ≤ ds.length) {mark : List Char} {e : Int} (hmark : ExponentText mark e) :
    Literal (ds.take j ++ (fractionText (ds.drop j) ++ mark)) (Nat.ofDigitChars 10 ds 0)
      (e - (ds.length - j : Nat)) := by
  have hne : ds.take j ≠ [] := by
    rw [← List.length_pos_iff, List.length_take]
    omega
  have hhead : (ds.take j).head? = ds.head? := by
    rw [List.head?_take, if_neg (by omega)]
  have hwhole : ∀ c ∈ ds.take j, c.isDigit := fun c hc => hds c (List.mem_of_mem_take hc)
  have hfraction : ∀ c ∈ ds.drop j, c.isDigit := fun c hc => hds c (List.mem_of_mem_drop hc)
  have h := @Literal.mk (ds.take j) (ds.drop j) mark e hne hwhole (.inr (by rwa [hhead]))
    hfraction hmark
  rwa [List.take_append_drop, List.length_drop] at h

end Forms

/-! ## Shortest decimals -/

/-- The same number as `n * 10 ^ k`, in a literal that no whole number is written as. -/
def Denotes (cs : List Char) (n : Nat) (k : Int) : Prop :=
  ∃ n' k', Literal cs n' k' ∧ (n' : ℚ) * 10 ^ k' = n * 10 ^ k ∧ (k' = k ∨ k' = -1) ∧
    ∃ c ∈ cs, c.isDigit = false

theorem denotes_positional {n : Nat} {k : Int} (hzero : 0 < n ∨ k = 0) :
    Denotes (Binary64.positionalText numberLayout (Nat.toDigits 10 n)
      (k + (Nat.toDigits 10 n).length - 1)).toList n k := by
  have hdigits := Integer.isDigit_of_mem (n := n)
  have hvalue := Nat.ofDigitChars_ten_toDigits (n := n)
  have hne := Integer.toDigits_ne_nil n
  have hlen : 0 < (Nat.toDigits 10 n).length := Nat.length_toDigits_pos
  have hhead : Nat.toDigits 10 n = ['0'] ∧ k = 0 ∨ (Nat.toDigits 10 n).head? ≠ some '0' := by
    rcases Nat.eq_zero_or_pos n with rfl | hn
    · exact .inl ⟨rfl, by omega⟩
    · exact .inr (toDigits_head hn)
  generalize Nat.toDigits 10 n = ds at *
  obtain ⟨e, he⟩ : ∃ e, e = k + ds.length - 1 := ⟨_, rfl⟩
  rw [← he]
  unfold Binary64.positionalText
  split
  case isTrue hneg =>
    have h := literal_below_one hne hdigits (-e - 1).toNat
    have hk : -(((-e - 1).toNat + ds.length : Nat) : Int) = k := by omega
    rw [hvalue, hk] at h
    refine ⟨n, k, ?_, rfl, .inl rfl, '.', ?_, by decide⟩
    · simpa using h
    · simp
  case isFalse hneg =>
    split
    case isTrue hwhole =>
      obtain ⟨j, hj⟩ : ∃ j : Nat, k = j := ⟨k.toNat, by omega⟩
      have hcount : e.toNat + 1 - ds.length = j := by omega
      have h := literal_whole (j := j) hne hdigits (hhead.imp_left fun h => ⟨h.1, by omega⟩)
      rw [hvalue] at h
      refine ⟨10 ^ (j + 1) * n, -1, ?_, ?_, .inr rfl, '.', ?_, by decide⟩
      · simpa [hcount, numberLayout] using h
      · rw [hj]
        push_cast
        rw [zpow_neg_one, zpow_natCast]
        ring
      · simp [numberLayout]
    case isFalse hwhole =>
      have hhead' : ds.head? ≠ some '0' := by
        rcases hhead with ⟨rfl, _⟩ | hhead
        · simp at hwhole
        · exact hhead
      have h := literal_split hdigits hhead' (j := e.toNat + 1) (by omega) (by omega) .absent
      have hk : 0 - ((ds.length - (e.toNat + 1) : Nat) : Int) = k := by omega
      have hdrop : ¬ds.length ≤ e.toNat + 1 := hwhole
      rw [hvalue, hk] at h
      refine ⟨n, k, ?_, rfl, .inl rfl, '.', ?_, by decide⟩
      · simpa [fractionText, hdrop] using h
      · simp

theorem denotes_exponent {n : Nat} {k : Int} (hn : 0 < n) :
    Denotes (Binary64.exponentText (Nat.toDigits 10 n)
      (k + (Nat.toDigits 10 n).length - 1)).toList n k := by
  have hdigits := Integer.isDigit_of_mem (n := n)
  have hvalue := Nat.ofDigitChars_ten_toDigits (n := n)
  have hlen : 0 < (Nat.toDigits 10 n).length := Nat.length_toDigits_pos
  have hhead := toDigits_head hn
  generalize Nat.toDigits 10 n = ds at *
  obtain ⟨e, he⟩ : ∃ e, e = k + ds.length - 1 := ⟨_, rfl⟩
  rw [← he]
  have h := literal_split hdigits hhead Nat.one_pos hlen (.present e)
  have hk : e - ((ds.length - 1 : Nat) : Int) = k := by omega
  rw [hvalue, hk] at h
  have htext : (Binary64.exponentText ds e).toList = ds.take 1 ++ (fractionText (ds.drop 1) ++
      'e' :: (if e < 0 then '-' else '+') :: Nat.toDigits 10 e.natAbs) := by
    unfold Binary64.exponentText fractionText
    simp only [List.isEmpty_iff, List.drop_eq_nil_iff, Nat.toString_eq_ofList_toDigits]
    split <;> split <;> simp
  refine ⟨n, k, ?_, rfl, .inl rfl, 'e', ?_, by decide⟩
  · rwa [htext]
  · rw [htext]
    simp

theorem shortest_pos {x : Binary64} (hx : x.isFinite = true) (h : 0 < x.magnitude) :
    0 < (Binary64.shortest .even x.magnitude).1 := by
  have hpoint := (Binary64.shortest_roundsTo .even h (of_decide_eq_true hx)).1.pos h
  by_contra hzero
  rw [Nat.eq_zero_of_not_pos hzero] at hpoint
  simp at hpoint

/-- The text of a finite number is that of its shortest decimal. -/
theorem exists_denotes {x : Binary64} (hx : x.isFinite = true) :
    ∃ cs, numberText x = signedText x.isNegative cs ∧
      Denotes cs (Binary64.shortest .even x.magnitude).1
        (Binary64.shortest .even x.magnitude).2 := by
  have hlt : x.magnitude < Binary64.limit := of_decide_eq_true hx
  have hnan : x.isNaN = false := decide_eq_false (by omega)
  have hpos := shortest_pos hx
  have hzero : x.magnitude = 0 → Binary64.shortest .even x.magnitude = (0, 0) := by
    intro h
    rw [h]
    rfl
  have htext : numberText x = (x.text numberLayout).toList := rfl
  rw [htext]
  unfold Binary64.text
  rw [hnan, hx]
  have htie : numberLayout.tie = .even := rfl
  rw [htie]
  generalize Binary64.shortest .even x.magnitude = decimal at hpos hzero ⊢
  obtain ⟨n, k⟩ := decimal
  have hsign : ∀ s : String, ((if x.isNegative = true then "-" else "") ++ s).toList =
      signedText x.isNegative s.toList := by
    intro s
    unfold signedText
    split <;> simp
  simp only [Bool.false_eq_true, if_false, if_true, hsign]
  refine ⟨_, rfl, ?_⟩
  have hn : 0 < n ∨ n = 0 ∧ k = 0 :=
    (Nat.eq_zero_or_pos x.magnitude).elim (fun h => .inr (Prod.mk.inj (hzero h))) (.inl ∘ hpos)
  split
  case isTrue => exact denotes_positional (hn.imp_right And.right)
  case isFalse hexponent =>
    rcases hn with hn | ⟨rfl, rfl⟩
    · exact denotes_exponent hn
    · exact absurd (by decide) hexponent

/-! ## Reading -/

theorem ofChars?_numberText {x : Binary64} (hx : x.isFinite = true) :
    Binary64.ofChars? (numberText x) = some x := by
  obtain ⟨cs, htext, n, k, hliteral, hvalue, hk, _⟩ := exists_denotes hx
  have hlt : x.magnitude < Binary64.limit := of_decide_eq_true hx
  have hnearest : Binary64.nearestDecimal n k = x.magnitude := by
    rcases Nat.eq_zero_or_pos x.magnitude with h | h
    · rw [h] at hvalue ⊢
      have hn : n = 0 := by
        simpa [Binary64.shortest, (Binary64.ten_zpow_pos k).ne'] using hvalue
      rw [hn]
      rfl
    · obtain ⟨hpoint, hlow, hhigh⟩ := Binary64.shortest_roundsTo .even h hlt
      exact Binary64.nearestDecimal_of_roundsTo h hlt (by omega) (by omega) (hvalue ▸ hpoint)
  rw [htext, hliteral.ofChars?, Binary64.ofDecimal, hnearest, Binary64.ofMagnitude_magnitude]

theorem integer_ofChars?_signedText {cs : List Char} {n : Nat} {k : Int} (h : Literal cs n k)
    (hc : ∃ c ∈ cs, c.isDigit = false) (negative : Bool) :
    Integer.ofChars? (signedText negative cs) = none := by
  obtain ⟨c, hmem, hc⟩ := hc
  have hnone := Integer.natOfDigits?_eq_none hmem hc
  unfold signedText
  cases negative with
  | true =>
    rw [if_pos rfl, Integer.ofChars?, hnone]
    rfl
  | false =>
    obtain ⟨d, rest, rfl, hd⟩ := h.exists_digit
    rw [if_neg (by decide), Integer.ofChars?_of_isDigit hd, hnone]
    rfl

/-- A finite number reads back as it was, and not as a whole number. -/
theorem number?_numberText {x : Binary64} (hx : x.isFinite = true) :
    Raw.number? (numberText x) = some (.float x) := by
  obtain ⟨cs, htext, n, k, hliteral, _, _, hc⟩ := exists_denotes hx
  have hread := ofChars?_numberText hx
  have hwhole := integer_ofChars?_signedText hliteral hc x.isNegative
  rw [← htext] at hwhole
  unfold Raw.number?
  simp only [hwhole, hread, Option.bind_eq_bind, Option.bind_some, hx, if_true]

theorem text_ne_negative_zero (n : Int) : (Integer.text n).toList ≠ ['-', '0'] := by
  rw [text_eq_signedText]
  unfold signedText
  split
  case isTrue hn =>
    intro h
    have hpos : 0 < n.natAbs := by
      have hneg : n < 0 := of_decide_eq_true hn
      omega
    exact toDigits_head hpos (by rw [(List.cons.inj h).2]; rfl)
  case isFalse =>
    intro h
    have hdigit := Integer.isDigit_of_mem (n := n.natAbs) '-' (by rw [h]; exact List.mem_cons_self)
    exact absurd hdigit (by decide)

/-- A whole number of 64 bits reads back as it was. -/
theorem number?_text {n : Int} (hn : isInt n = true) :
    Raw.number? (Integer.text n).toList = some (.int n) := by
  have hraw : (isInt n && (Integer.text n).toList != ['-', '0']) = true := by
    rw [hn, Bool.true_and, bne_iff_ne]
    exact text_ne_negative_zero n
  unfold Raw.number?
  simp only [Integer.ofChars?_text, hraw, if_true]

/-! ## Recognising -/

theorem isNumber_numberText {x : Binary64} (hx : x.isFinite = true) :
    isNumber (numberText x) = true ∧ ∀ c ∈ numberText x, isNumberChar c = true := by
  obtain ⟨cs, htext, n, k, hliteral, _⟩ := exists_denotes hx
  rw [htext]
  exact ⟨hliteral.isNumber _, hliteral.isNumberChar_signed _⟩

theorem isNumber_text (n : Int) : isNumber (Integer.text n).toList = true ∧
    ∀ c ∈ (Integer.text n).toList, isNumberChar c = true := by
  rw [text_eq_signedText]
  exact ⟨(literal_toDigits _).isNumber _, (literal_toDigits _).isNumberChar_signed _⟩

end Json
end ObjectSpace
