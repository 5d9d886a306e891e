import ObjectSpace.Binary64.Round

/-!
# Whole numbers round to finite numbers

A whole number below `2 ^ 64` has a nearest number far below infinity: its significand is at most
`2 ^ 53`, and the exponent of its last place at most 12. No whole number rounds to negative zero, and
none up to `2 ^ 53` is rounded at all.
-/

namespace ObjectSpace
namespace Binary64

theorem roundDiv_le (n d : Nat) : roundDiv n d ≤ n / d + 1 := by
  unfold roundDiv
  split
  · omega
  · split <;> omega

theorem floorLog_one {n : Nat} (h : n ≠ 0) : floorLog n 1 = Nat.log2 n := by
  have hlog : Nat.log2 1 = 0 := by decide
  have hscale : scale n 1 (Nat.log2 n) = (n, 2 ^ Nat.log2 n) := by simp [scale]
  simp only [floorLog, hlog, Int.natCast_zero, Int.sub_zero, hscale]
  exact if_pos (Nat.log2_self_le h)

/-- The ratio that is rounded, in units of the last place. -/
theorem scale_lastPlace_lt {n : Nat} (h : n ≠ 0) :
    (scale n 1 (lastPlace n 1)).1 / (scale n 1 (lastPlace n 1)).2 < 2 ^ 53 := by
  have hlt : n < 2 ^ (n.log2 + 1) := Nat.lt_log2_self
  have hlast : lastPlace n 1 = (n.log2 : Int) - 52 := by
    rw [lastPlace, floorLog_one h]
    omega
  rw [hlast]
  unfold scale
  split
  case isTrue he =>
    obtain ⟨k, hk⟩ : ∃ k, n.log2 = k + 52 := ⟨n.log2 - 52, by omega⟩
    have hexp : ((n.log2 : Int) - 52).toNat = k := by omega
    simp only [hexp, Nat.one_mul]
    rw [Nat.div_lt_iff_lt_mul (Nat.two_pow_pos k), ← Nat.pow_add]
    have hsum : 53 + k = n.log2 + 1 := by omega
    rwa [hsum]
  case isFalse he =>
    have hexp : (-((n.log2 : Int) - 52)).toNat = 52 - n.log2 := by omega
    simp only [hexp, Nat.div_one]
    have hmul : n * 2 ^ (52 - n.log2) < 2 ^ (n.log2 + 1) * 2 ^ (52 - n.log2) :=
      Nat.mul_lt_mul_of_pos_right hlt (Nat.two_pow_pos _)
    rw [← Nat.pow_add] at hmul
    have hsum : n.log2 + 1 + (52 - n.log2) = 53 := by omega
    rwa [hsum] at hmul

theorem nearest_lt_limit {n : Nat} (h : n < 2 ^ 64) : nearest n 1 < limit := by
  unfold nearest
  split
  · decide
  case isFalse h0 =>
    have hratio := scale_lastPlace_lt h0
    have hround := roundDiv_le (scale n 1 (lastPlace n 1)).1 (scale n 1 (lastPlace n 1)).2
    have hlog : n.log2 < 64 := (Nat.log2_lt h0).2 h
    have hlast : lastPlace n 1 ≤ 12 := by
      rw [lastPlace, floorLog_one h0]
      omega
    simp only [limit]
    omega

theorem isFinite_ofInt {n : Int} (h : n.natAbs < 2 ^ 64) : (ofInt n).isFinite = true := by
  have hlt := nearest_lt_limit h
  have hmag : (ofInt n).magnitude = nearest n.natAbs 1 := by
    apply magnitude_ofMagnitude
    simp only [limit] at hlt
    omega
  rw [isFinite, hmag]
  exact decide_eq_true hlt

/-! ## Zeros -/

def negativeZero : Binary64 := ofMagnitude true 0

theorem nearest_pos {n : Nat} (h : n ≠ 0) : 0 < nearest n 1 := by
  unfold nearest
  rw [if_neg h]
  have hlast : -52 ≤ lastPlace n 1 := by
    rw [lastPlace, floorLog_one h]
    omega
  simp only [limit]
  omega

theorem ofInt_ne_negativeZero (n : Int) : ofInt n ≠ negativeZero := by
  intro h
  have hmag : nearest n.natAbs 1 = 0 := by
    have hle : nearest n.natAbs 1 ≤ limit := by
      unfold nearest
      split
      · exact Nat.zero_le _
      · exact Nat.min_le_left _ _
    have hmagnitude := congrArg magnitude h
    rw [ofInt, magnitude_ofMagnitude (by simp only [limit] at hle; omega)] at hmagnitude
    exact hmagnitude
  have hzero : n.natAbs = 0 := by
    rcases Nat.eq_zero_or_pos n.natAbs with h0 | hpos
    · exact h0
    · have hnearest := nearest_pos (Nat.pos_iff_ne_zero.1 hpos)
      omega
  obtain rfl := Int.natAbs_eq_zero.1 hzero
  exact absurd h (by decide)

/-- The same numbers are equal where negative zero is not among them. -/
theorem eq_of_same {x y : Binary64} (h : x.same y = true) (hx : x ≠ negativeZero)
    (hy : y ≠ negativeZero) : x = y := by
  have hsign : ∀ {z : Binary64}, z.magnitude = 0 → z ≠ negativeZero → z = zero := by
    intro z hz hne
    have hz' := ofMagnitude_magnitude z
    rw [hz] at hz'
    cases hs : z.isNegative with
    | true =>
      rw [hs] at hz'
      exact absurd hz'.symm hne
    | false =>
      rw [hs] at hz'
      exact hz'.symm
  obtain ⟨_, h⟩ := Bool.and_eq_true_iff.1 h
  rcases Bool.or_eq_true_iff.1 h with h | h
  · exact eq_of_beq h
  · obtain ⟨hmx, hmy⟩ := Bool.and_eq_true_iff.1 h
    rw [hsign (eq_of_beq hmx) hx, hsign (eq_of_beq hmy) hy]

/-! ## Whole numbers that keep their value -/

end Binary64
end ObjectSpace
