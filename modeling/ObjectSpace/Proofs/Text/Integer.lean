import ObjectSpace.Text.Integer

/-!
# Integers and what they are written as

An integer that comes from a bounded type goes back into it unchanged, one that goes into it comes
back unchanged, and so does one that comes out of its own digits. Digits are read by `Nat.ofDigitChars`, once it is clear that all are digits.
-/

namespace ObjectSpace

theorem int64?_toInt (n : Int64) : int64? n.toInt = some n := by
  have hlow : minInt64 ≤ n.toInt := n.minValue_le_toInt
  have hhigh : n.toInt ≤ maxInt64 := Int.le_of_lt_add_one n.toInt_lt
  rw [int64?, if_pos ⟨hlow, hhigh⟩, Int64.ofInt_toInt]

theorem uint32?_toNat (n : UInt32) : uint32? n.toNat = some n := by
  have hlt : n.toNat < 2 ^ 32 := n.toNat_lt_size
  have hcond : (0 : Int) ≤ n.toNat ∧ (n.toNat : Int) < 2 ^ 32 := by omega
  rw [uint32?, if_pos hcond, Int.toNat_natCast, UInt32.ofNat_toNat]

theorem uint64?_toNat (n : UInt64) : uint64? n.toNat = some n := by
  have hlt : n.toNat < 2 ^ 64 := n.toNat_lt_size
  have hcond : (0 : Int) ≤ n.toNat ∧ (n.toNat : Int) < 2 ^ 64 := by omega
  rw [uint64?, if_pos hcond, Int.toNat_natCast, UInt64.ofNat_toNat]

theorem toInt_of_int64? {n : Int} {m : Int64} (h : int64? n = some m) : m.toInt = n := by
  unfold int64? at h
  split at h
  case isTrue hn =>
    cases h
    exact Int64.toInt_ofInt_of_le hn.1 (Int.lt_of_le_of_lt hn.2 (by decide))
  case isFalse => cases h

theorem toNat_of_uint32? {n : Int} {m : UInt32} (h : uint32? n = some m) : m.toNat = n := by
  unfold uint32? at h
  split at h
  case isTrue hn =>
    cases h
    have hlt : n.toNat < 2 ^ 32 := by omega
    rw [UInt32.toNat_ofNat_of_lt' hlt]
    omega
  case isFalse => cases h

theorem toNat_of_uint64? {n : Int} {m : UInt64} (h : uint64? n = some m) : m.toNat = n := by
  unfold uint64? at h
  split at h
  case isTrue hn =>
    cases h
    have hlt : n.toNat < 2 ^ 64 := by omega
    rw [UInt64.toNat_ofNat_of_lt' hlt]
    omega
  case isFalse => cases h

theorem uint32?_eq_some_iff {n : Int} {m : UInt32} : uint32? n = some m ↔ n = m.toNat := by
  refine ⟨fun h => (toNat_of_uint32? h).symm, ?_⟩
  rintro rfl
  exact uint32?_toNat m

theorem uint64?_eq_some_iff {n : Int} {m : UInt64} : uint64? n = some m ↔ n = m.toNat := by
  refine ⟨fun h => (toNat_of_uint64? h).symm, ?_⟩
  rintro rfl
  exact uint64?_toNat m

namespace Integer

/-! ## Digits -/

theorem digitsOnto_eq {cs : List Char} (h : ∀ c ∈ cs, c.isDigit = true) (n : Nat) :
    digitsOnto n cs = some (Nat.ofDigitChars 10 cs n) := by
  induction cs generalizing n with
  | nil => rfl
  | cons c cs ih =>
    obtain ⟨hc, hcs⟩ := List.forall_mem_cons.1 h
    rw [digitsOnto, if_pos hc, ih hcs, Nat.ofDigitChars_cons]
    rfl

theorem digitsOnto_eq_none {cs : List Char} {c : Char} (hc : c ∈ cs) (h : c.isDigit = false)
    (n : Nat) : digitsOnto n cs = none := by
  induction cs generalizing n with
  | nil => cases hc
  | cons d cs ih =>
    rw [digitsOnto]
    rcases List.mem_cons.1 hc with rfl | hc
    · rw [h]
      rfl
    · split
      · exact ih hc _
      · rfl

theorem natOfDigits?_eq {cs : List Char} (hne : cs ≠ []) (h : ∀ c ∈ cs, c.isDigit = true) :
    natOfDigits? cs = some (Nat.ofDigitChars 10 cs 0) := by
  cases cs with
  | nil => exact absurd rfl hne
  | cons c cs => exact digitsOnto_eq h 0

theorem natOfDigits?_eq_none {cs : List Char} {c : Char} (hc : c ∈ cs) (h : c.isDigit = false) :
    natOfDigits? cs = none := by
  cases cs with
  | nil => rfl
  | cons d cs => exact digitsOnto_eq_none hc h 0

theorem digitsOnto_lt {cs : List Char} {n m : Nat} (h : digitsOnto n cs = some m) :
    m < (n + 1) * 10 ^ cs.length := by
  induction cs generalizing n with
  | nil =>
    cases h
    simp
  | cons c cs ih =>
    rw [digitsOnto] at h
    split at h
    case isTrue hc =>
      have hdigit : c.toNat - 48 ≤ 9 := by
        have hbounds := Bool.and_eq_true_iff.1 hc
        have hhigh : c.val ≤ 57 := of_decide_eq_true hbounds.2
        have hle : c.toNat ≤ 57 := hhigh
        omega
      calc m < (10 * n + (c.toNat - 48) + 1) * 10 ^ cs.length := ih h
        _ ≤ (n + 1) * 10 * 10 ^ cs.length := Nat.mul_le_mul_right _ (by omega)
        _ = (n + 1) * 10 ^ (cs.length + 1) := by rw [Nat.mul_assoc, Nat.pow_succ']
    case isFalse => cases h

theorem natOfDigits?_lt {cs : List Char} {n : Nat} (h : natOfDigits? cs = some n) :
    n < 10 ^ cs.length := by
  cases cs with
  | nil => cases h
  | cons c cs => simpa using digitsOnto_lt (n := 0) h

/-- The digits of a number, which its text is made of. -/
theorem isDigit_of_mem {n : Nat} : ∀ c ∈ Nat.toDigits 10 n, c.isDigit = true := fun _ =>
  Nat.isDigit_of_mem_toDigits (by decide) (by decide)

theorem toDigits_ne_nil (n : Nat) : Nat.toDigits 10 n ≠ [] :=
  List.ne_nil_of_length_pos Nat.length_toDigits_pos

theorem natOfDigits?_toDigits (n : Nat) : natOfDigits? (Nat.toDigits 10 n) = some n := by
  rw [natOfDigits?_eq (toDigits_ne_nil n) isDigit_of_mem, Nat.ofDigitChars_ten_toDigits]

/-- Digits tell their number. -/
theorem eq_of_toDigits_eq {n m : Nat} (h : Nat.toDigits 10 n = Nat.toDigits 10 m) : n = m := by
  have hread := natOfDigits?_toDigits n
  rw [h, natOfDigits?_toDigits] at hread
  exact (Option.some.inj hread).symm

/-! ## Signs -/

theorem ofChars?_of_isDigit {c : Char} {cs : List Char} (hc : c.isDigit = true) :
    ofChars? (c :: cs) = (natOfDigits? (c :: cs)).map Int.ofNat := by
  unfold ofChars?
  split
  case h_1 h =>
    obtain ⟨rfl, _⟩ := List.cons.inj h
    exact absurd hc (by decide)
  case h_2 h =>
    obtain ⟨rfl, _⟩ := List.cons.inj h
    exact absurd hc (by decide)
  case h_3 => rfl

theorem ofChars?_toDigits (n : Nat) : ofChars? (Nat.toDigits 10 n) = some (n : Int) := by
  have hread := natOfDigits?_toDigits n
  have hdigits := isDigit_of_mem (n := n)
  cases hcs : Nat.toDigits 10 n with
  | nil => exact absurd hcs (toDigits_ne_nil n)
  | cons c cs =>
    rw [hcs] at hread hdigits
    rw [ofChars?_of_isDigit (hdigits c List.mem_cons_self), hread]
    rfl

theorem text_natCast (n : Nat) : (text n).toList = Nat.toDigits 10 n := by
  have htext : text n = toString n := rfl
  rw [htext, Nat.toString_eq_ofList_toDigits, String.toList_ofList]

theorem text_negSucc (n : Nat) :
    (text (Int.negSucc n)).toList = '-' :: Nat.toDigits 10 (n + 1) := by
  have htext : text (Int.negSucc n) = "-" ++ toString (n + 1) := rfl
  rw [htext, String.toList_append, Nat.toString_eq_ofList_toDigits, String.toList_ofList,
    String.toList_ofList, List.singleton_append]

theorem ofChars?_text (n : Int) : ofChars? (text n).toList = some n := by
  cases n with
  | ofNat n =>
    rw [Int.ofNat_eq_natCast, text_natCast, ofChars?_toDigits]
  | negSucc n =>
    rw [text_negSucc, ofChars?, natOfDigits?_toDigits]
    rfl

end Integer
end ObjectSpace
