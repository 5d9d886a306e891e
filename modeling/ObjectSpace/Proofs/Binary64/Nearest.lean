import Mathlib.Algebra.Order.Field.Rat
import Mathlib.Data.Nat.Log
import Mathlib.Tactic.FieldSimp
import Mathlib.Tactic.Linarith
import Mathlib.Tactic.NormNum
import Mathlib.Tactic.Positivity
import Mathlib.Tactic.Ring
import ObjectSpace.Binary64.Shortest

/-!
# The ratios that round to a number

Around the value of each finite magnitude lies the interval of the ratios that round to it. Its ends
are half a last place away, and below a power of two a quarter, since the gap there is half as wide.
-/

namespace ObjectSpace
namespace Binary64

/-- The ratio lies in the interval of the magnitude; the ends belong to even magnitudes. -/
def RoundsTo (m : Nat) (x : ℚ) : Prop :=
  let u : ℚ := 2 ^ (exponent m - 2)
  let low : ℚ := 4 * significand m - if halvedBelow m then 1 else 2
  let high : ℚ := 4 * significand m + 2
  if m % 2 = 0 then low * u ≤ x ∧ x ≤ high * u else low * u < x ∧ x < high * u

theorem two_zpow_pos (e : Int) : (0 : ℚ) < 2 ^ e := zpow_pos (by norm_num) e

theorem two_zpow_eq {e a : Int} (k : Nat) (h : e = a + k) : (2 : ℚ) ^ e = 2 ^ k * 2 ^ a := by
  rw [h, zpow_add₀ (by norm_num), zpow_natCast, mul_comm]

theorem scale_den_pos {d : Nat} (n : Nat) (e : Int) (hd : 0 < d) : 0 < (scale n d e).2 := by
  unfold scale
  split
  · exact Nat.mul_pos hd (Nat.two_pow_pos _)
  · exact hd

theorem scale_ratio {d : Nat} (n : Nat) (e : Int) (hd : 0 < d) :
    ((scale n d e).1 : ℚ) / (scale n d e).2 = n / d / 2 ^ e := by
  have hd' : (d : ℚ) ≠ 0 := Nat.cast_ne_zero.2 hd.ne'
  unfold scale
  split
  case isTrue he =>
    obtain ⟨k, rfl⟩ := Int.eq_ofNat_of_zero_le he
    simp only [Int.toNat_natCast, zpow_natCast]
    push_cast
    field_simp
  case isFalse he =>
    obtain ⟨k, hk⟩ := Int.eq_ofNat_of_zero_le (show 0 ≤ -e by omega)
    obtain rfl : e = -(k : Int) := by omega
    simp only [Int.neg_neg, Int.toNat_natCast, zpow_neg, zpow_natCast]
    push_cast
    field_simp

theorem two_pow_le_iff_scale {n d : Nat} (e : Int) (hd : 0 < d) :
    (scale n d e).2 ≤ (scale n d e).1 ↔ (2 : ℚ) ^ e ≤ n / d := by
  have hq : (0 : ℚ) < (scale n d e).2 := Nat.cast_pos.2 (scale_den_pos n e hd)
  rw [← Nat.cast_le (α := ℚ), ← one_le_div hq, scale_ratio n e hd, one_le_div (two_zpow_pos e)]

/-- The logarithm is exact: the ratio lies between these two powers of two. -/
theorem floorLog_spec {n d : Nat} (hn : 0 < n) (hd : 0 < d) :
    (2 : ℚ) ^ floorLog n d ≤ n / d ∧ (n : ℚ) / d < 2 ^ (floorLog n d + 1) := by
  have hn' : (2 : ℚ) ^ (n.log2 : Int) ≤ n ∧ (n : ℚ) < 2 ^ ((n.log2 : Int) + 1) := by
    rw [← Int.natCast_one, ← Int.natCast_add, zpow_natCast, zpow_natCast]
    exact ⟨by exact_mod_cast Nat.log2_self_le hn.ne', by exact_mod_cast Nat.lt_log2_self⟩
  have hd' : (2 : ℚ) ^ (d.log2 : Int) ≤ d ∧ (d : ℚ) < 2 ^ ((d.log2 : Int) + 1) := by
    rw [← Int.natCast_one, ← Int.natCast_add, zpow_natCast, zpow_natCast]
    exact ⟨by exact_mod_cast Nat.log2_self_le hd.ne', by exact_mod_cast Nat.lt_log2_self⟩
  have hdpos : (0 : ℚ) < d := Nat.cast_pos.2 hd
  have hlow : (2 : ℚ) ^ ((n.log2 : Int) - d.log2 - 1) ≤ n / d := by
    rw [le_div_iff₀ hdpos]
    calc (2 : ℚ) ^ ((n.log2 : Int) - d.log2 - 1) * d
        ≤ 2 ^ ((n.log2 : Int) - d.log2 - 1) * 2 ^ ((d.log2 : Int) + 1) := by
          exact mul_le_mul_of_nonneg_left hd'.2.le (two_zpow_pos _).le
      _ = 2 ^ (n.log2 : Int) := by
          rw [← zpow_add₀ (by norm_num)]
          congr 1
          ring
      _ ≤ n := hn'.1
  have hhigh : (n : ℚ) / d < 2 ^ ((n.log2 : Int) - d.log2 + 1) := by
    rw [div_lt_iff₀ hdpos]
    calc (n : ℚ) < 2 ^ ((n.log2 : Int) + 1) := hn'.2
      _ = 2 ^ ((n.log2 : Int) - d.log2 + 1) * 2 ^ (d.log2 : Int) := by
          rw [← zpow_add₀ (by norm_num)]
          congr 1
          ring
      _ ≤ 2 ^ ((n.log2 : Int) - d.log2 + 1) * d := by
          exact mul_le_mul_of_nonneg_left hd'.1 (two_zpow_pos _).le
  unfold floorLog
  dsimp only
  split
  case isTrue h => exact ⟨(two_pow_le_iff_scale _ hd).1 h, hhigh⟩
  case isFalse h =>
    rw [two_pow_le_iff_scale _ hd, not_le] at h
    rw [Int.sub_add_cancel]
    exact ⟨hlow, h⟩

/-- The integer that is at most half away, and even if it is exactly half away. -/
theorem roundDiv_eq {n d s : Nat} (hd : 0 < d) (hlow : 2 * s * d ≤ 2 * n + d)
    (hhigh : 2 * n ≤ (2 * s + 1) * d)
    (htie : s % 2 = 0 ∨ 2 * s * d < 2 * n + d ∧ 2 * n < (2 * s + 1) * d) : roundDiv n d = s := by
  have hn := Nat.div_add_mod n d
  have hr := Nat.mod_lt n hd
  unfold roundDiv
  generalize n / d = a at *
  generalize n % d = r at *
  subst hn
  have hcancel : ∀ {x y : Nat}, x * d < y * d → x < y := fun h => Nat.lt_of_mul_lt_mul_right h
  split
  case isTrue h =>
    have h1 : s < a + 1 := hcancel (by nlinarith)
    have h2 : a < s + 1 := hcancel (by nlinarith)
    omega
  case isFalse h =>
    split
    case isTrue h' =>
      have h1 : s < a + 2 := hcancel (by nlinarith)
      have h2 : a < s := hcancel (by nlinarith)
      omega
    case isFalse h' =>
      have hhalf : 2 * r = d := by omega
      have h1 : s < a + 2 := hcancel (by nlinarith)
      have h2 : a < s + 1 := hcancel (by nlinarith)
      rcases htie with heven | ⟨h3, h4⟩
      · omega
      · have h3' : 2 * s < 2 * a + 2 := hcancel (by nlinarith)
        have h4' : 2 * a < 2 * s := hcancel (by nlinarith)
        omega

/-! ## One binade -/

theorem floorLog_lt {n d : Nat} (hn : 0 < n) (hd : 0 < d) {a : Int} (h : (n : ℚ) / d < 2 ^ a) :
    floorLog n d < a :=
  (zpow_lt_zpow_iff_right₀ (by norm_num)).1 ((floorLog_spec hn hd).1.trans_lt h)

theorem le_floorLog {n d : Nat} (hn : 0 < n) (hd : 0 < d) {a : Int} (h : (2 : ℚ) ^ a ≤ n / d) :
    a ≤ floorLog n d := by
  have hlt := h.trans_lt (floorLog_spec hn hd).2
  exact Int.lt_add_one_iff.1 ((zpow_lt_zpow_iff_right₀ (by norm_num)).1 hlt)

/-- With the last place known, the nearest magnitude is that of the nearest integer. -/
theorem nearest_of_lastPlace {n d t : Nat} {e : Int} (hn : 0 < n) (hd : 0 < d)
    (he : lastPlace n d = e) (hlow : ((t : ℚ) - 1 / 2) * 2 ^ e ≤ n / d)
    (hhigh : (n : ℚ) / d ≤ (t + 1 / 2) * 2 ^ e)
    (htie : t % 2 = 0 ∨ ((t : ℚ) - 1 / 2) * 2 ^ e < n / d ∧ (n : ℚ) / d < (t + 1 / 2) * 2 ^ e) :
    nearest n d = min limit ((e + 1074).toNat * 2 ^ 52 + t) := by
  have hq : (0 : ℚ) < (scale n d e).2 := Nat.cast_pos.2 (scale_den_pos n e hd)
  have hratio := scale_ratio n e hd
  have hscaled : (n : ℚ) / d = (scale n d e).1 / (scale n d e).2 * 2 ^ e := by
    rw [hratio, div_mul_cancel₀ _ (two_zpow_pos e).ne']
  have hround : roundDiv (scale n d e).1 (scale n d e).2 = t := by
    rw [hscaled] at hlow hhigh htie
    rw [mul_le_mul_iff_left₀ (two_zpow_pos e), le_div_iff₀ hq] at hlow
    rw [mul_le_mul_iff_left₀ (two_zpow_pos e), div_le_iff₀ hq] at hhigh
    rw [mul_lt_mul_iff_left₀ (two_zpow_pos e), mul_lt_mul_iff_left₀ (two_zpow_pos e),
      lt_div_iff₀ hq, div_lt_iff₀ hq] at htie
    refine roundDiv_eq (scale_den_pos n e hd) ?_ ?_ (htie.imp_right fun h => ⟨?_, ?_⟩)
    · rw [← Nat.cast_le (α := ℚ)]
      push_cast
      linarith
    · rw [← Nat.cast_le (α := ℚ)]
      push_cast
      linarith
    · rw [← Nat.cast_lt (α := ℚ)]
      push_cast
      linarith [h.1]
    · rw [← Nat.cast_lt (α := ℚ)]
      push_cast
      linarith [h.2]
  unfold nearest
  rw [if_neg hn.ne']
  dsimp only
  rw [he, hround]

/-! ## Magnitudes -/

theorem exponent_ge (m : Nat) : -1074 ≤ exponent m := by
  unfold exponent
  omega

/-- A magnitude counts the numbers below it, binade by binade. -/
theorem exponent_add_significand (m : Nat) :
    (exponent m + 1074).toNat * 2 ^ 52 + significand m = m := by
  unfold exponent significand
  split <;> omega

theorem significand_mod_two (m : Nat) : significand m % 2 = m % 2 := by
  unfold significand
  split <;> omega

theorem significand_lt (m : Nat) : significand m < 2 ^ 53 := by
  unfold significand
  split <;> omega

theorem significand_pos {m : Nat} (h : 0 < m) : 0 < significand m := by
  unfold significand
  split <;> omega

theorem exponent_of_lt {m : Nat} (h : m < 2 ^ 52) : exponent m = -1074 := by
  unfold exponent
  omega

theorem le_significand {m : Nat} (h : 2 ^ 52 ≤ m) : 2 ^ 52 ≤ significand m := by
  unfold significand
  split <;> omega

theorem halvedBelow_of_significand {m : Nat} (hs : significand m = 2 ^ 52)
    (he : -1074 < exponent m) : halvedBelow m = true := by
  unfold significand at hs
  unfold exponent at he
  unfold halvedBelow
  split at hs
  · omega
  · rw [Bool.and_eq_true, beq_iff_eq, decide_eq_true_eq]
    omega

/-- The interval without its inner structure: the ratio is at most half a last place away, and less
where the magnitude is odd. -/
theorem RoundsTo.bounds {m : Nat} {x : ℚ} (h : RoundsTo m x) :
    ((significand m : ℚ) - 1 / 2) * 2 ^ exponent m ≤ x ∧
    x ≤ (significand m + 1 / 2) * 2 ^ exponent m ∧
    (significand m % 2 = 0 ∨ ((significand m : ℚ) - 1 / 2) * 2 ^ exponent m < x ∧
      x < (significand m + 1 / 2) * 2 ^ exponent m) := by
  have hu : (0 : ℚ) < 2 ^ (exponent m - 2) := two_zpow_pos _
  have hE : (2 : ℚ) ^ exponent m = 2 ^ 2 * 2 ^ (exponent m - 2) := two_zpow_eq 2 (by simp)
  rw [significand_mod_two, hE]
  unfold RoundsTo at h
  generalize (2 : ℚ) ^ (exponent m - 2) = u at *
  dsimp only at h
  have hlow : ((significand m : ℚ) - 1 / 2) * (2 ^ 2 * u) ≤
      (4 * significand m - if halvedBelow m then 1 else 2) * u := by
    split <;> linarith
  have hhigh : ((significand m : ℚ) + 1 / 2) * (2 ^ 2 * u) = (4 * significand m + 2) * u := by ring
  rw [hhigh]
  split at h
  case isTrue heven => exact ⟨hlow.trans h.1, h.2, .inl heven⟩
  case isFalse => exact ⟨hlow.trans h.1.le, h.2.le, .inr ⟨hlow.trans_lt h.1, h.2⟩⟩

/-- Below a power of two the interval is narrower. -/
theorem RoundsTo.quarter_le {m : Nat} {x : ℚ} (h : RoundsTo m x) (hm : halvedBelow m = true) :
    ((significand m : ℚ) - 1 / 4) * 2 ^ exponent m ≤ x := by
  have hE : (2 : ℚ) ^ exponent m = 2 ^ 2 * 2 ^ (exponent m - 2) := two_zpow_eq 2 (by simp)
  rw [hE]
  unfold RoundsTo at h
  generalize (2 : ℚ) ^ (exponent m - 2) = u at *
  dsimp only at h
  rw [hm, if_pos rfl] at h
  split at h
  · linarith [h.1]
  · linarith [h.1]

/-! ## Ratios in the interval of a magnitude -/

variable {m n d : Nat}

/-- Subnormal numbers share one last place. -/
theorem lastPlace_of_lt (hn : 0 < n) (hd : 0 < d) (hx : (n : ℚ) / d < 2 ^ (-1022 : Int)) :
    lastPlace n d = -1074 := by
  have hlog := floorLog_lt hn hd hx
  unfold lastPlace
  omega

theorem lastPlace_eq (hn : 0 < n) (hd : 0 < d) {e : Int} (he : -1074 ≤ e)
    (hlow : (2 : ℚ) ^ (e + 52) ≤ n / d) (hhigh : (n : ℚ) / d < 2 ^ (e + 53)) :
    lastPlace n d = e := by
  have hle := le_floorLog hn hd hlow
  have hlt := floorLog_lt hn hd hhigh
  unfold lastPlace
  omega

theorem RoundsTo.lt_of_significand_lt {x : ℚ} (h : RoundsTo m x) {bits : Nat}
    (hs : significand m < 2 ^ bits) : x < 2 ^ (exponent m + bits) := by
  have hs' : (significand m : ℚ) + 1 ≤ 2 ^ bits := by exact_mod_cast hs
  rw [two_zpow_eq bits rfl]
  refine h.bounds.2.1.trans_lt (mul_lt_mul_of_pos_right ?_ (two_zpow_pos _))
  linarith

/-- Only the smallest number of a binade is nearest to ratios below the binade. -/
theorem RoundsTo.significand_eq {x : ℚ} (h : RoundsTo m x) (hs : 2 ^ 52 ≤ significand m)
    (hx : x < 2 ^ (exponent m + 52)) : significand m = 2 ^ 52 := by
  rw [two_zpow_eq (e := exponent m + 52) 52 rfl] at hx
  have hlt := lt_of_mul_lt_mul_right (h.bounds.1.trans_lt hx) (two_zpow_pos _).le
  have hnat : significand m < 2 ^ 52 + 1 := by
    rw [← Nat.cast_lt (α := ℚ), Nat.cast_add, Nat.cast_pow]
    simp only [Nat.cast_ofNat, Nat.cast_one]
    linarith
  omega

/-- In the binade below, with its finer last place, the ratio still rounds up to the magnitude. -/
theorem RoundsTo.nearest_of_below (hn : 0 < n) (hd : 0 < d) (h : RoundsTo m ((n : ℚ) / d))
    (hs : significand m = 2 ^ 52) (he : -1074 < exponent m)
    (hx : (n : ℚ) / d < 2 ^ (exponent m + 52)) : nearest n d = min limit m := by
  have hquarter := h.quarter_le (halvedBelow_of_significand hs he)
  have hpos := two_zpow_pos (exponent m - 1)
  have hhalf : (2 : ℚ) ^ exponent m = 2 ^ 1 * 2 ^ (exponent m - 1) := two_zpow_eq 1 (by simp)
  have hs' : (significand m : ℚ) = 2 ^ 52 := by exact_mod_cast hs
  rw [hs', hhalf] at hquarter
  have hlow : (2 : ℚ) ^ (exponent m - 1 + 52) ≤ n / d := by
    rw [two_zpow_eq (e := exponent m - 1 + 52) 52 rfl]
    refine le_trans ?_ hquarter
    linarith
  have hhigh : (n : ℚ) / d < 2 ^ (exponent m - 1 + 53) := by
    convert hx using 2
    ring
  have hplace : lastPlace n d = exponent m - 1 := lastPlace_eq hn hd (by omega) hlow hhigh
  rw [two_zpow_eq (e := exponent m - 1 + 53) 53 rfl] at hhigh
  have hcast : ((2 ^ 53 : Nat) : ℚ) = 2 ^ 53 := by norm_cast
  have hsum := exponent_add_significand m
  rw [nearest_of_lastPlace (t := 2 ^ 53) hn hd hplace (by rw [hcast]; linarith)
    (by rw [hcast]; linarith) (.inl (by norm_num))]
  rw [hs] at hsum
  omega

/-- What lies in the interval of a magnitude rounds to it. -/
theorem nearest_of_roundsTo (hm : m ≤ limit) (hn : 0 < n) (hd : 0 < d)
    (h : RoundsTo m ((n : ℚ) / d)) : nearest n d = m := by
  have hge := exponent_ge m
  have hself : lastPlace n d = exponent m → nearest n d = m := by
    intro he
    obtain ⟨hlow, hhigh, htie⟩ := h.bounds
    rw [nearest_of_lastPlace hn hd he hlow hhigh htie, exponent_add_significand, min_eq_right hm]
  by_cases hm52 : m < 2 ^ 52
  · have he := exponent_of_lt hm52
    have hs : significand m < 2 ^ 52 := by
      unfold significand
      rwa [if_pos hm52]
    have hx := h.lt_of_significand_lt hs
    rw [he] at hx
    exact hself ((lastPlace_of_lt hn hd hx).trans he.symm)
  · by_cases hx : (2 : ℚ) ^ (exponent m + 52) ≤ n / d
    · exact hself (lastPlace_eq hn hd hge hx (h.lt_of_significand_lt (significand_lt m)))
    · rw [not_le] at hx
      have hs := h.significand_eq (le_significand (Nat.le_of_not_lt hm52)) hx
      rcases hge.eq_or_lt with he | he
      · refine hself ?_
        rw [← he] at hx ⊢
        exact lastPlace_of_lt hn hd hx
      · rw [h.nearest_of_below hn hd hs he hx, min_eq_right hm]

end Binary64
end ObjectSpace
