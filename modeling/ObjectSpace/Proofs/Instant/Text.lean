import ObjectSpace.Instant.Text
import ObjectSpace.Proofs.Instant.Calendar
import ObjectSpace.Proofs.Text.Integer

/-!
# Instants read back

The text of an instant in the years 0 to 9999 has fields of fixed width, which are read one after
the other. A leap second must be the last second of its minute, since its text is second 60, and an
instant that is read from any text is of this kind.
-/

namespace ObjectSpace
namespace Instant

/-- The date of the instant has a year of four digits, and a leap second ends a minute. -/
structure IsCommon (t : Instant) : Prop where
  year_nonneg : 0 ≤ (Date.ofDays (t.seconds / secondsPerDay)).year
  year_le : (Date.ofDays (t.seconds / secondsPerDay)).year ≤ 9999
  leap : t.nanos < 10 ^ 9 ∨ t.seconds % 60 = 59

instance (t : Instant) : Decidable t.IsCommon :=
  decidable_of_iff (0 ≤ (Date.ofDays (t.seconds / secondsPerDay)).year ∧
    (Date.ofDays (t.seconds / secondsPerDay)).year ≤ 9999 ∧
    (t.nanos < 10 ^ 9 ∨ t.seconds % 60 = 59))
    ⟨fun ⟨h₁, h₂, h₃⟩ => ⟨h₁, h₂, h₃⟩, fun ⟨h₁, h₂, h₃⟩ => ⟨h₁, h₂, h₃⟩⟩

/-! ## Digits of fixed width -/

/-- The digits of a number behind as many zeros as the width asks for. -/
structure Padded (width n : Nat) (ds : List Char) : Prop where
  length : ds.length = width
  digits : ∀ c ∈ ds, c.isDigit = true
  value : Integer.natOfDigits? ds = some n

theorem padded_spec {width n : Nat} (hwidth : 0 < width) (hn : n < 10 ^ width) :
    Padded width n (padded width n).toList := by
  have hlength : (Nat.toDigits 10 n).length ≤ width :=
    (Nat.length_toDigits_le_iff (by decide) hwidth).2 hn
  have hdigits : ∀ c ∈ List.replicate (width - (Nat.toDigits 10 n).length) '0' ++
      Nat.toDigits 10 n, c.isDigit = true := by
    intro c hc
    rcases List.mem_append.1 hc with hc | hc
    · rw [List.eq_of_mem_replicate hc]
      decide
    · exact Integer.isDigit_of_mem c hc
  unfold padded
  dsimp only
  rw [String.toList_ofList]
  refine ⟨?_, hdigits, ?_⟩
  · rw [List.length_append, List.length_replicate]
    omega
  · rw [Integer.natOfDigits?_eq (List.append_ne_nil_of_right_ne_nil _ (Integer.toDigits_ne_nil n))
      hdigits, Nat.ofDigitChars_append, Nat.ofDigitChars_replicate_zero, Nat.mul_zero,
      Nat.ofDigitChars_ten_toDigits]

theorem Padded.read {width n : Nat} {ds : List Char} (h : Padded width n ds)
    (rest : List Char) : Instant.digits width (some width) (ds ++ rest) = some (n, rest) := by
  have htake : ((ds ++ rest).takeWhile Char.isDigit).take width = ds := by
    rw [List.takeWhile_append_of_pos h.digits, ← h.length, List.take_left]
  unfold Instant.digits
  simp only [htake, h.length, Nat.lt_irrefl, if_false, h.value, Option.map_some]
  rw [← h.length, List.drop_left]

theorem digits_padded {width n : Nat} (hwidth : 0 < width) (hn : n < 10 ^ width)
    (rest : List Char) :
    digits width (some width) ((padded width n).toList ++ rest) = some (n, rest) :=
  (padded_spec hwidth hn).read rest

/-- Digits behind the point count from the left. -/
theorem Padded.fraction {width n : Nat} {ds : List Char} (h : Padded width n ds)
    (hwidth : width ≤ 9) :
    Instant.fraction ('.' :: (ds ++ ['Z'])) = some (n * 10 ^ (9 - width), ['Z']) := by
  have htake : (ds ++ ['Z']).takeWhile Char.isDigit = ds := by
    rw [List.takeWhile_append_of_pos h.digits]
    simp
  have hkept : ds.take 9 = ds := List.take_of_length_le (by rw [h.length]; exact hwidth)
  unfold Instant.fraction
  simp only [htake, hkept, h.value, h.length, Option.map_some]
  rw [← h.length, List.drop_left]

theorem fraction_fractionText {nanos : Nat} (h : nanos < 10 ^ 9) :
    fraction ((fractionText nanos).toList ++ ['Z']) = some (nanos, ['Z']) := by
  unfold fractionText
  split
  case isTrue h0 =>
    rw [h0]
    rfl
  case isFalse =>
  have hpoint : ∀ s : String, ("." ++ s).toList ++ ['Z'] = '.' :: (s.toList ++ ['Z']) := by
    intro s
    simp
  split
  case isTrue hthree =>
    have hvalue : nanos / 1000000 * 10 ^ (9 - 3) = nanos :=
      Nat.div_mul_cancel (Nat.dvd_of_mod_eq_zero hthree)
    rw [hpoint, (padded_spec (by decide) (by omega)).fraction (by decide), hvalue]
  case isFalse =>
  split
  case isTrue hsix =>
    have hvalue : nanos / 1000 * 10 ^ (9 - 6) = nanos :=
      Nat.div_mul_cancel (Nat.dvd_of_mod_eq_zero hsix)
    rw [hpoint, (padded_spec (by decide) (by omega)).fraction (by decide), hvalue]
  case isFalse =>
    rw [hpoint, (padded_spec (by decide) h).fraction (by decide), Nat.sub_self, Nat.pow_zero,
      Nat.mul_one]

/-! ## The whole text -/

/-- The text of fields with their marks between them. -/
def fieldsText (year month day hour minute second nanos : Nat) : List Char :=
  (padded 4 year).toList ++ '-' :: ((padded 2 month).toList ++ '-' :: ((padded 2 day).toList ++
    'T' :: ((padded 2 hour).toList ++ ':' :: ((padded 2 minute).toList ++
      ':' :: ((padded 2 second).toList ++ ((fractionText nanos).toList ++ ['Z']))))))

theorem ofRfc3339?_fieldsText {year month day hour minute second nanos : Nat}
    (hyear : year < 10 ^ 4) (hmonth : month < 10 ^ 2) (hday : day < 10 ^ 2) (hhour : hour < 10 ^ 2)
    (hminute : minute < 10 ^ 2) (hsecond : second < 10 ^ 2) (hnanos : nanos < 10 ^ 9) :
    ofRfc3339? (fieldsText year month day hour minute second nanos) =
      Fields.instant? ⟨year, month, day, hour, minute, second, nanos⟩ 0 := by
  have hfour := @digits_padded 4 year (by decide) hyear
  have htwo : ∀ {n : Nat}, n < 10 ^ 2 → ∀ rest,
      digits 2 (some 2) ((padded 2 n).toList ++ rest) = some (n, rest) :=
    fun hn => digits_padded (by decide) hn
  unfold ofRfc3339? fieldsText
  simp only [hfour, htwo hmonth, htwo hday, htwo hhour, htwo hminute, htwo hsecond,
    fraction_fractionText hnanos, mark, offset, Option.bind_eq_bind, Option.bind_some,
    beq_self_eq_true, Bool.true_or, if_true, List.isEmpty_nil]

theorem toList_text {t : Instant} (h : t.IsCommon) : t.text.toList =
    fieldsText (Date.ofDays (t.seconds / secondsPerDay)).year.toNat
      (Date.ofDays (t.seconds / secondsPerDay)).month (Date.ofDays (t.seconds / secondsPerDay)).day
      ((t.seconds % secondsPerDay).toNat / 3600) ((t.seconds % secondsPerDay).toNat / 60 % 60)
      ((t.seconds % secondsPerDay).toNat % 60 + t.nanos / 1000000000) (t.nanos % 1000000000) := by
  have hyear : (0 ≤ (Date.ofDays (t.seconds / secondsPerDay)).year &&
      (Date.ofDays (t.seconds / secondsPerDay)).year ≤ 9999) = true := by
    rw [decide_eq_true h.year_nonneg, decide_eq_true h.year_le]
    rfl
  simp [text, yearText, fieldsText, hyear]

theorem instant?_fields {t : Instant} (h : t.IsCommon) : Fields.instant?
    ⟨(Date.ofDays (t.seconds / secondsPerDay)).year,
      (Date.ofDays (t.seconds / secondsPerDay)).month,
      (Date.ofDays (t.seconds / secondsPerDay)).day,
      (t.seconds % secondsPerDay).toNat / 3600, (t.seconds % secondsPerDay).toNat / 60 % 60,
      (t.seconds % secondsPerDay).toNat % 60 + t.nanos / 1000000000, t.nanos % 1000000000⟩ 0 =
    some t := by
  obtain ⟨hlow, hhigh, hleap⟩ := h
  have hnanos := t.nanos_lt
  have hvalid : (Date.ofDays (t.seconds / secondsPerDay)).isValid = true :=
    Date.isValid_ofDays (Int.le_trans (by decide) hlow) (Int.le_trans hhigh (by decide))
  have hdays := Date.toDays_ofDays (t.seconds / secondsPerDay)
  obtain ⟨second, hsecond⟩ : ∃ s, s = (t.seconds % secondsPerDay).toNat := ⟨_, rfl⟩
  have hsplit : t.seconds / secondsPerDay * secondsPerDay + second = t.seconds := by
    unfold secondsPerDay at *
    omega
  have hminute : t.nanos / 1000000000 = 0 ∨ t.nanos / 1000000000 = 1 ∧ second % 60 = 59 := by
    unfold secondsPerDay at *
    omega
  have hday : second < 86400 := by
    unfold secondsPerDay at *
    omega
  rw [← hsecond]
  unfold Fields.instant?
  dsimp only
  have hcond : ((Date.ofDays (t.seconds / secondsPerDay)).isValid &&
      decide (second / 3600 < 24) && decide (second / 60 % 60 < 60) &&
      decide (second % 60 + t.nanos / 1000000000 ≤ 60)) = true := by
    rw [hvalid, decide_eq_true (by omega), decide_eq_true (by omega), decide_eq_true (by omega)]
    rfl
  rw [if_pos hcond, hdays]
  have hseconds : t.seconds / secondsPerDay * secondsPerDay +
      (second / 3600 * 3600 + second / 60 % 60 * 60 + (second % 60 + t.nanos / 1000000000 -
        (second % 60 + t.nanos / 1000000000) / 60) : Nat) - 0 = t.seconds := by
    omega
  have hparts : t.nanos % 1000000000 + (second % 60 + t.nanos / 1000000000) / 60 * 1000000000 =
      t.nanos := by
    omega
  rw [hseconds, hparts]
  exact dif_pos hnanos

theorem ofRfc3339?_text {t : Instant} (h : t.IsCommon) : ofRfc3339? t.text.toList = some t := by
  obtain ⟨hmonth, hday⟩ := Date.ofDays_lt (t.seconds / secondsPerDay)
  have hlow := h.year_nonneg
  have hhigh := h.year_le
  have hyear : (((Date.ofDays (t.seconds / secondsPerDay)).year.toNat : Nat) : Int) =
      (Date.ofDays (t.seconds / secondsPerDay)).year := Int.toNat_of_nonneg hlow
  have hnanos := t.nanos_lt
  have hsecond : (t.seconds % secondsPerDay).toNat < 86400 := by
    unfold secondsPerDay
    omega
  rw [toList_text h, ofRfc3339?_fieldsText (by omega) hmonth hday (by omega) (by omega) (by omega)
    (Nat.mod_lt _ (by decide)), hyear]
  exact instant?_fields h

theorem ofText?_text {t : Instant} (h : t.IsCommon) : ofText? t.text = some t := by
  unfold ofText?
  dsimp only
  rw [ofRfc3339?_text h]
  rfl

/-! ## Instants that are read -/

/-- A leap second ends a minute. -/
def IsRegular (t : Instant) : Prop := t.nanos < 10 ^ 9 ∨ t.seconds % 60 = 59

theorem fraction_lt {cs rest : List Char} {nanos : Nat} (h : fraction cs = some (nanos, rest)) :
    nanos < 10 ^ 9 := by
  unfold fraction at h
  split at h
  case h_1 cs =>
    obtain ⟨n, hn, h⟩ := Option.map_eq_some_iff.1 h
    obtain ⟨rfl, _⟩ := Prod.mk.inj h
    have hkept : ((cs.takeWhile Char.isDigit).take 9).length ≤ 9 := List.length_take_le _ _
    calc n * 10 ^ (9 - ((cs.takeWhile Char.isDigit).take 9).length)
        < 10 ^ ((cs.takeWhile Char.isDigit).take 9).length *
            10 ^ (9 - ((cs.takeWhile Char.isDigit).take 9).length) :=
          Nat.mul_lt_mul_of_pos_right (Integer.natOfDigits?_lt hn) (Nat.pow_pos (by decide))
      _ = 10 ^ 9 := by rw [← Nat.pow_add, Nat.add_sub_cancel' hkept]
  case h_2 =>
    cases h
    decide

/-- Offsets count whole minutes. -/
theorem offset_mod {cs rest : List Char} {ahead : Int} (h : offset cs = some (ahead, rest)) :
    ahead % 60 = 0 := by
  unfold offset at h
  split at h
  case h_1 | h_2 =>
    cases h
    rfl
  case h_3 =>
    dsimp only at h
    repeat' split at h
    all_goals
      obtain ⟨_, hsign, h⟩ := Option.bind_eq_some_iff.1 h
      cases hsign
    all_goals
      obtain ⟨⟨hours, _⟩, _, h⟩ := Option.bind_eq_some_iff.1 h
      obtain ⟨_, _, h⟩ := Option.bind_eq_some_iff.1 h
      obtain ⟨⟨minutes, _⟩, _, h⟩ := Option.bind_eq_some_iff.1 h
      dsimp only at h
      split at h
      · obtain ⟨rfl, _⟩ := Prod.mk.inj (Option.some.inj h)
        split <;> omega
      · cases h
  case h_4 => cases h

theorem isRegular_of_fields {f : Fields} {ahead : Int} {t : Instant} (hnanos : f.nanos < 10 ^ 9)
    (hahead : ahead % 60 = 0) (h : f.instant? ahead = some t) : t.IsRegular := by
  unfold Fields.instant? ofParts? at h
  dsimp only at h
  split at h
  case isTrue hfields =>
    have hsecond : f.second ≤ 60 := of_decide_eq_true (Bool.and_eq_true_iff.1 hfields).2
    split at h
    · cases h
      unfold IsRegular secondsPerDay
      -- second 60 stands for second 59 and a leap, and nothing else moves within the minute
      rcases Nat.lt_or_eq_of_le hsecond with hlt | heq
      · left
        have hleap : f.second / 60 = 0 := Nat.div_eq_of_lt hlt
        simpa [hleap] using hnanos
      · right
        dsimp only
        rw [heq]
        omega
    · cases h
  case isFalse => cases h

theorem isRegular_of_ofRfc3339? {cs : List Char} {t : Instant} (h : ofRfc3339? cs = some t) :
    t.IsRegular := by
  unfold ofRfc3339? at h
  iterate 11 obtain ⟨_, _, h⟩ := Option.bind_eq_some_iff.1 h
  obtain ⟨⟨nanos, _⟩, hnanos, h⟩ := Option.bind_eq_some_iff.1 h
  obtain ⟨⟨ahead, _⟩, hahead, h⟩ := Option.bind_eq_some_iff.1 h
  dsimp only at h
  split at h
  · exact isRegular_of_fields (fraction_lt hnanos) (offset_mod hahead) h
  · cases h

theorem isRegular_of_ofLoose? {between : Reader Unit} {cs : List Char} {t : Instant}
    (h : ofLoose? between cs = some t) : t.IsRegular := by
  unfold ofLoose? at h
  iterate 11 obtain ⟨_, _, h⟩ := Option.bind_eq_some_iff.1 h
  obtain ⟨⟨nanos, _⟩, hnanos, h⟩ := Option.bind_eq_some_iff.1 h
  dsimp only at h
  split at h
  · exact isRegular_of_fields (fraction_lt hnanos) rfl h
  · cases h

theorem isRegular_of_ofText? {s : String} {t : Instant} (h : ofText? s = some t) :
    t.IsRegular := by
  unfold ofText? at h
  simp only [Option.orElse_eq_orElse, Option.orElse_eq_or, Option.or_eq_some_iff] at h
  rcases h with h | ⟨_, h | ⟨_, h⟩⟩
  · exact isRegular_of_ofRfc3339? h
  · exact isRegular_of_ofLoose? h
  · exact isRegular_of_ofLoose? h

end Instant
end ObjectSpace
