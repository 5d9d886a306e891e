import Mathlib.Algebra.GroupWithZero.Nat
import ObjectSpace.Instant.Calendar

/-!
# Dates and day counts

Every day count has a date, and the date has this count: the parts of a cycle of 400 years are cut
off one after the other, and what is left is a day of its year.
-/

namespace ObjectSpace
namespace Date

/-- The day of a year stands in one of the months. -/
theorem exists_of_lt_sum {lengths : List Nat} {n : Nat} (month : Nat) (h : n < lengths.sum) :
    ∃ i length, lengths[i]? = some length ∧ (lengths.take i).sum ≤ n ∧
      n < (lengths.take i).sum + length ∧
      monthDay month lengths n = (month + i, n - (lengths.take i).sum + 1) := by
  induction lengths generalizing month n with
  | nil => cases h
  | cons length rest ih =>
    rw [List.sum_cons] at h
    unfold monthDay
    split
    case isTrue hlt => exact ⟨0, length, rfl, by simp, by simpa using hlt, by simp⟩
    case isFalse hge =>
      obtain ⟨i, length', hi, hlow, hhigh, hmonth⟩ := ih (n := n - length) (month + 1) (by omega)
      refine ⟨i + 1, length', hi, ?_, ?_, ?_⟩
      · rw [List.take_succ_cons, List.sum_cons]
        omega
      · rw [List.take_succ_cons, List.sum_cons]
        omega
      · rw [hmonth, List.take_succ_cons, List.sum_cons]
        congr 1 <;> omega

theorem sum_monthLengths (year : Int) :
    (monthLengths year).sum = if isLeap year then 366 else 365 := by
  unfold monthLengths
  split <;> rfl

theorem isLeap_iff (year : Int) :
    isLeap year = true ↔ year % 4 = 0 ∧ (year % 100 ≠ 0 ∨ year % 400 = 0) := by
  simp [isLeap]

/-- The parts of a day count: cycle, century, span, year and day of the year. -/
theorem exists_parts (days : Int) : ∃ (year : Int) (n : Nat),
    n < (monthLengths year).sum ∧ daysBeforeYear year + n - epoch = days ∧
    ofDays days = ⟨year, (monthDay 1 (monthLengths year) n).1,
      (monthDay 1 (monthLengths year) n).2⟩ := by
  obtain ⟨cycle, hcycle⟩ : ∃ c, c = (days + epoch) / 146097 := ⟨_, rfl⟩
  obtain ⟨inCycle, hinCycle⟩ : ∃ r, r = ((days + epoch) % 146097).toNat := ⟨_, rfl⟩
  obtain ⟨century, hcentury⟩ : ∃ a, a = min (inCycle / 36524) 3 := ⟨_, rfl⟩
  obtain ⟨span, hspan⟩ : ∃ b, b = (inCycle - century * 36524) / 1461 := ⟨_, rfl⟩
  obtain ⟨inSpan, hinSpan⟩ : ∃ r, r = (inCycle - century * 36524) % 1461 := ⟨_, rfl⟩
  obtain ⟨year, hyear⟩ : ∃ d, d = min (inSpan / 365) 3 := ⟨_, rfl⟩
  refine ⟨400 * cycle + (100 * century + 4 * span + year + 1 : Nat), inSpan - year * 365,
    ?_, ?_, ?_⟩
  · have hleap := isLeap_iff (400 * cycle + (100 * century + 4 * span + year + 1 : Nat))
    rw [sum_monthLengths]
    split
    · omega
    case isFalse hno =>
      rw [hleap] at hno
      omega
  · have hspan' : span ≤ 24 := by omega
    have hyear' : year ≤ 3 := by omega
    have hcentury' : century ≤ 3 := by omega
    have hfour : (400 * cycle + (100 * century + 4 * span + year + 1 : Nat) - 1) / 4 =
        100 * cycle + 25 * century + span := by omega
    have hhundred : (400 * cycle + (100 * century + 4 * span + year + 1 : Nat) - 1) / 100 =
        4 * cycle + century := by omega
    have hcycles : (400 * cycle + (100 * century + 4 * span + year + 1 : Nat) - 1) / 400 =
        cycle := by omega
    unfold daysBeforeYear
    dsimp only
    rw [hfour, hhundred, hcycles]
    omega
  · subst hyear hinSpan hspan hcentury hinCycle hcycle
    rfl

/-- The date of a day count has this count, and is a date of its month. -/
theorem toDays_ofDays (days : Int) : (ofDays days).toDays = days := by
  obtain ⟨year, n, hn, hdays, hdate⟩ := exists_parts days
  obtain ⟨i, length, _, hlow, _, hmonth⟩ := exists_of_lt_sum 1 hn
  rw [hdate, hmonth]
  unfold toDays
  simp only [Nat.add_sub_cancel_left, ← List.sum_eq_foldl_nat]
  omega

theorem isValid_ofDays {days : Int} (hlow : minYear ≤ (ofDays days).year)
    (hhigh : (ofDays days).year ≤ maxYear) : (ofDays days).isValid = true := by
  obtain ⟨year, n, hn, _, hdate⟩ := exists_parts days
  obtain ⟨i, length, hi, hlow', hhigh', hmonth⟩ := exists_of_lt_sum 1 hn
  rw [hmonth] at hdate
  rw [hdate] at hlow hhigh ⊢
  unfold isValid
  simp only [Nat.add_sub_cancel_left, hi, hlow, hhigh, decide_true, Bool.true_and,
    Bool.and_eq_true, decide_eq_true_eq]
  omega

/-- The parts of a date are short enough for the fields of its text. -/
theorem ofDays_lt (days : Int) : (ofDays days).month < 100 ∧ (ofDays days).day < 100 := by
  obtain ⟨year, n, hn, _, hdate⟩ := exists_parts days
  obtain ⟨i, length, hi, hlow, hhigh, hmonth⟩ := exists_of_lt_sum 1 hn
  have hlengths : ∀ l ∈ monthLengths year, l ≤ 31 := by
    unfold monthLengths
    split <;> decide
  have hlength := hlengths length (List.mem_of_getElem? hi)
  have hi' : i < 12 := (List.getElem?_eq_some_iff.1 hi).1
  rw [hdate, hmonth]
  dsimp only
  omega

end Date
end ObjectSpace
