import ObjectSpace.Proofs.Binary64.Nearest

/-!
# The shortest decimal rounds to its number

The search ends on a grid that has a point in the interval of the magnitude: the last grid it comes
to, of step `10 ^ (-324)`, is finer than the interval is wide.
-/

namespace ObjectSpace
namespace Binary64

/-! ## Points in quarters of the last place -/

theorem roundsTo_of_roundsBack {m n d : Nat} (hm : 0 < m) (hd : 0 < d)
    (h : roundsBack m n d = true) : RoundsTo m (n / d * 2 ^ (exponent m - 2)) := by
  have hs := significand_pos hm
  have hd' : (0 : ℚ) < d := Nat.cast_pos.2 hd
  have hu := two_zpow_pos (exponent m - 2)
  have hlow : (((if halvedBelow m then 4 * significand m - 1 else 4 * significand m - 2) : Nat) : ℚ)
      = 4 * significand m - if halvedBelow m then 1 else 2 := by
    split
    · push_cast [show 1 ≤ 4 * significand m by omega]
      ring
    · push_cast [show 2 ≤ 4 * significand m by omega]
      ring
  unfold roundsBack at h
  unfold RoundsTo
  dsimp only at h ⊢
  rw [← hlow]
  generalize (if halvedBelow m then 4 * significand m - 1 else 4 * significand m - 2) = low at h ⊢
  split at h
  case isTrue heven =>
    rw [if_pos heven, mul_le_mul_iff_left₀ hu, mul_le_mul_iff_left₀ hu, le_div_iff₀ hd',
      div_le_iff₀ hd']
    rw [Bool.and_eq_true, decide_eq_true_eq, decide_eq_true_eq] at h
    exact ⟨by exact_mod_cast h.1, by exact_mod_cast h.2⟩
  case isFalse hodd =>
    rw [if_neg hodd, mul_lt_mul_iff_left₀ hu, mul_lt_mul_iff_left₀ hu, lt_div_iff₀ hd',
      div_lt_iff₀ hd']
    rw [Bool.and_eq_true, decide_eq_true_eq, decide_eq_true_eq] at h
    exact ⟨by exact_mod_cast h.1, by exact_mod_cast h.2⟩

/-- What is less than one quarter of a last place off rounds back. -/
theorem roundsBack_of_near {m n d : Nat} (hm : 0 < m) (hlow : 4 * significand m * d < n + d)
    (hhigh : n < (4 * significand m + 1) * d) : roundsBack m n d = true := by
  have hs := significand_pos hm
  have hsub : (4 * significand m - 1) * d + d = 4 * significand m * d := by
    rw [← Nat.succ_mul]
    congr 1
    omega
  have hsub' : (4 * significand m - 2) * d ≤ (4 * significand m - 1) * d :=
    Nat.mul_le_mul_right d (by omega)
  have hadd : (4 * significand m + 1) * d ≤ (4 * significand m + 2) * d :=
    Nat.mul_le_mul_right d (by omega)
  unfold roundsBack
  dsimp only
  split <;> split <;> rw [Bool.and_eq_true, decide_eq_true_eq, decide_eq_true_eq] <;> omega

theorem gridStep_den_pos (m : Nat) (k : Int) : 0 < (gridStep m k).2 := by
  unfold gridStep
  dsimp only
  split
  · exact scale_den_pos _ _ Nat.one_pos
  · exact scale_den_pos _ _ (Nat.pow_pos (by norm_num))

theorem ten_zpow_pos (k : Int) : (0 : ℚ) < 10 ^ k := zpow_pos (by norm_num) k

theorem gridStep_ratio (m : Nat) (k : Int) :
    ((gridStep m k).1 : ℚ) / (gridStep m k).2 = 10 ^ k / 2 ^ (exponent m - 2) := by
  unfold gridStep
  dsimp only
  split
  case isTrue hk =>
    obtain ⟨n, rfl⟩ := Int.eq_ofNat_of_zero_le hk
    rw [scale_ratio _ _ Nat.one_pos]
    simp
  case isFalse hk =>
    obtain ⟨n, hn⟩ := Int.eq_ofNat_of_zero_le (show 0 ≤ -k by omega)
    obtain rfl : k = -(n : Int) := by omega
    rw [scale_ratio _ _ (Nat.pow_pos (by norm_num))]
    simp

theorem gridStep_num_pos (m : Nat) (k : Int) : 0 < (gridStep m k).1 := by
  have hq : (0 : ℚ) < (gridStep m k).2 := Nat.cast_pos.2 (gridStep_den_pos m k)
  have hratio : (0 : ℚ) < (gridStep m k).1 / (gridStep m k).2 := by
    rw [gridStep_ratio]
    exact div_pos (ten_zpow_pos k) (two_zpow_pos _)
  exact Nat.cast_pos.1 ((div_pos_iff_of_pos_right hq).1 hratio)

/-- The ratio a point of the grid stands for. -/
theorem roundsTo_of_gridPoint {m n : Nat} {k : Int} (hm : 0 < m)
    (h : roundsBack m (n * (gridStep m k).1) (gridStep m k).2 = true) :
    RoundsTo m (n * 10 ^ k) := by
  have hu := two_zpow_pos (exponent m - 2)
  have hpoint := roundsTo_of_roundsBack hm (gridStep_den_pos m k) h
  rwa [Nat.cast_mul, mul_div_assoc, gridStep_ratio, mul_assoc, div_mul_cancel₀ _ hu.ne'] at hpoint

/-! ## The search -/

theorem roundsBack_of_pointOn? {tie : Tie} {m n : Nat} {k : Int} (h : pointOn? tie m k = some n) :
    roundsBack m (n * (gridStep m k).1) (gridStep m k).2 = true := by
  unfold pointOn? at h
  dsimp only at h
  split at h
  case isTrue hback =>
    cases h
    exact hback
  split at h
  case isTrue hback =>
    cases h
    exact hback
  split at h
  case isTrue hback =>
    cases h
    exact hback
  case isFalse => cases h

/-- The nearest point is at most half a step away. -/
theorem nearestPoint_near (tie : Tie) (v q : Nat) {p : Nat} (hp : 0 < p) :
    2 * (v * q) ≤ 2 * (nearestPoint tie v p q * p) + p ∧
      2 * (nearestPoint tie v p q * p) ≤ 2 * (v * q) + p := by
  have hdiv := Nat.div_add_mod (v * q) p
  have hrest := Nat.mod_lt (v * q) hp
  have hup : (v * q / p + 1) * p = p * (v * q / p) + p := by ring
  have hdown : v * q / p * p = p * (v * q / p) := by ring
  unfold nearestPoint
  dsimp only
  split
  · omega
  · split
    · omega
    · cases tie with
      | up => dsimp only; omega
      | even =>
        dsimp only
        rcases Nat.mod_two_eq_zero_or_one (v * q / p) with h | h <;> rw [h]
        · rw [Nat.add_zero]
          omega
        · omega

/-- The nearest point of a grid that is finer than half a last place rounds back. -/
theorem roundsBack_nearestPoint (tie : Tie) {m : Nat} {k : Int} (hm : 0 < m)
    (hfine : (gridStep m k).1 < 2 * (gridStep m k).2) :
    roundsBack m (nearestPoint tie (4 * significand m) (gridStep m k).1 (gridStep m k).2 *
      (gridStep m k).1) (gridStep m k).2 = true := by
  obtain ⟨hlow, hhigh⟩ :=
    nearestPoint_near tie (4 * significand m) (gridStep m k).2 (gridStep_num_pos m k)
  generalize nearestPoint tie (4 * significand m) _ _ * _ = n at hlow hhigh ⊢
  have hsucc : (4 * significand m + 1) * (gridStep m k).2 = _ := Nat.succ_mul _ _
  exact roundsBack_of_near hm (by omega) (by omega)

/-- The search ends with a point that rounds back if it may go to a grid that is fine enough. -/
theorem search_roundsBack (tie : Tie) {m : Nat} (steps : Nat) {k : Int} (hm : 0 < m)
    (hfine : (gridStep m (k - steps)).1 < 2 * (gridStep m (k - steps)).2) :
    let r := search tie m k steps
    roundsBack m (r.1 * (gridStep m r.2).1) (gridStep m r.2).2 = true ∧
      k - steps ≤ r.2 ∧ r.2 ≤ k := by
  induction steps generalizing k with
  | zero =>
    rw [Nat.cast_zero, Int.sub_zero] at hfine
    exact ⟨roundsBack_nearestPoint tie hm hfine, by simp [search], by simp [search]⟩
  | succ steps ih =>
    unfold search
    cases hpoint : pointOn? tie m k with
    | some n =>
      have hle : k - (steps + 1 : Nat) ≤ k := by omega
      exact ⟨roundsBack_of_pointOn? hpoint, hle, le_refl k⟩
    | none =>
      have hk : k - 1 - (steps : Int) = k - (steps + 1 : Nat) := by push_cast; ring
      obtain ⟨hback, hlow, hhigh⟩ := ih (k := k - 1) (by rwa [hk])
      exact ⟨hback, hk ▸ hlow, hhigh.trans (by omega)⟩

theorem coarsest_bounds {m : Nat} (hm : m < limit) :
    -324 ≤ coarsest m ∧ coarsest m ≤ 310 := by
  have hlog : Nat.log2 (significand m) < 53 := by
    rcases Nat.eq_zero_or_pos (significand m) with h | h
    · rw [h]
      decide
    · exact (Nat.log2_lt h.ne').2 (significand_lt m)
  have hlow := exponent_ge m
  have hhigh : exponent m ≤ 971 := by
    unfold limit at hm
    unfold exponent
    omega
  unfold coarsest
  rw [Int.fdiv_eq_ediv_of_nonneg _ (by norm_num)]
  omega

theorem two_pow_lt_ten_pow : (2 : ℚ) ^ 1075 < 10 ^ 324 := by
  -- both powers are split, since neither is ever written out
  have hstep : ((2 : ℚ) ^ 93) ^ 11 < (10 ^ 28) ^ 11 := by
    refine pow_lt_pow_left₀ ?_ (by positivity) (by norm_num)
    norm_num
  calc (2 : ℚ) ^ 1075 = (2 ^ 93) ^ 11 * 2 ^ 52 := by rw [← pow_mul, ← pow_add]
    _ < (10 ^ 28) ^ 11 * 10 ^ 16 :=
      mul_lt_mul'' hstep (by norm_num) (by positivity) (by positivity)
    _ = 10 ^ 324 := by rw [← pow_mul, ← pow_add]

/-- The last grid of the search is finer than half of any last place. -/
theorem gridStep_fine (m : Nat) : (gridStep m (-324)).1 < 2 * (gridStep m (-324)).2 := by
  have hq : (0 : ℚ) < (gridStep m (-324)).2 := Nat.cast_pos.2 (gridStep_den_pos m _)
  have hge := exponent_ge m
  have hstep : (10 : ℚ) ^ (-324 : Int) < 2 * 2 ^ (-1076 : Int) := by
    have hten : (10 : ℚ) ^ (-324 : Int) = (10 ^ 324)⁻¹ := zpow_neg _ _
    have htwo : (2 : ℚ) * 2 ^ (-1076 : Int) = (2 ^ 1075)⁻¹ := by
      rw [← zpow_one_add₀ (by norm_num)]
      exact zpow_neg (2 : ℚ) 1075
    rw [hten, htwo]
    exact inv_strictAnti₀ (pow_pos (by norm_num) _) two_pow_lt_ten_pow
  rw [← Nat.cast_lt (α := ℚ), Nat.cast_mul, ← div_lt_iff₀ hq, gridStep_ratio,
    div_lt_iff₀ (two_zpow_pos _)]
  refine hstep.trans_le (mul_le_mul_of_nonneg_left ?_ (by norm_num))
  exact zpow_le_zpow_right₀ (by norm_num) (by omega)

/-- The shortest decimal lies in the interval of its magnitude. -/
theorem shortest_roundsTo (tie : Tie) {m : Nat} (hm : 0 < m) (hlt : m < limit) :
    RoundsTo m ((shortest tie m).1 * 10 ^ (shortest tie m).2) ∧
      -324 ≤ (shortest tie m).2 ∧ (shortest tie m).2 ≤ 310 := by
  obtain ⟨hlow, hhigh⟩ := coarsest_bounds hlt
  have hlast : coarsest m - (coarsest m + 324).toNat = -324 := by omega
  obtain ⟨hback, hge, hle⟩ := search_roundsBack tie (coarsest m + 324).toNat (k := coarsest m) hm
    (by rw [hlast]; exact gridStep_fine m)
  unfold shortest
  rw [if_neg hm.ne']
  exact ⟨roundsTo_of_gridPoint hm hback, by omega, by omega⟩

theorem RoundsTo.pos {m : Nat} {x : ℚ} (hm : 0 < m) (h : RoundsTo m x) : 0 < x := by
  have hs : (1 : ℚ) ≤ significand m := by exact_mod_cast significand_pos hm
  refine lt_of_lt_of_le (mul_pos ?_ (two_zpow_pos _)) h.bounds.1
  linarith

/-- Reading a decimal in the interval of a magnitude gives the magnitude. -/
theorem nearestDecimal_of_roundsTo {m n : Nat} {k : Int} (hm : 0 < m) (hlt : m < limit)
    (hlow : -400 ≤ k) (hhigh : k ≤ 400) (h : RoundsTo m (n * 10 ^ k)) :
    nearestDecimal n k = m := by
  have hn : 0 < n := by
    rcases Nat.eq_zero_or_pos n with rfl | hn
    · have hpos := h.pos hm
      simp at hpos
    · exact hn
  unfold nearestDecimal
  rw [if_neg hn.ne', if_neg (by omega), if_neg (by omega)]
  split
  case isTrue hk =>
    obtain ⟨e, rfl⟩ := Int.eq_ofNat_of_zero_le hk
    refine nearest_of_roundsTo hlt.le (Nat.mul_pos hn (Nat.pow_pos (by norm_num))) Nat.one_pos ?_
    simpa using h
  case isFalse hk =>
    obtain ⟨e, he⟩ := Int.eq_ofNat_of_zero_le (show 0 ≤ -k by omega)
    obtain rfl : k = -(e : Int) := by omega
    refine nearest_of_roundsTo hlt.le hn (Nat.pow_pos (by norm_num)) ?_
    simpa [div_eq_mul_inv] using h

end Binary64
end ObjectSpace
