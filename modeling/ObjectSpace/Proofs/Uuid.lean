import ObjectSpace.Uuid

/-!
# The text of a UUID reads back

The digits of the groups, put together again, are those of the number.
-/

namespace ObjectSpace
namespace Uuid

theorem length_hexDigits (count n : Nat) : (hexDigits count n).length = count := by
  induction count generalizing n with
  | zero => rfl
  | succ count ih => rw [hexDigits, List.length_append, ih, List.length_singleton]

theorem hexValue?_digit {n : Nat} (h : n < 16) : hexValue? (Hex.digit n) = some n := by
  have hall : ∀ n ∈ List.range 16, hexValue? (Hex.digit n) = some n := by decide
  exact hall n (List.mem_range.2 h)

/-- Digits stand for the number modulo the power of 16 that they reach. -/
theorem mapM_hexDigits (count n : Nat) : ∃ ds, (hexDigits count n).mapM hexValue? = some ds ∧
    ds.foldl (fun m d => 16 * m + d) 0 = n % 16 ^ count := by
  induction count generalizing n with
  | zero => exact ⟨[], rfl, (Nat.mod_one n).symm⟩
  | succ count ih =>
    obtain ⟨ds, hds, hfold⟩ := ih (n / 16)
    have hlast : n % 16 < 16 := Nat.mod_lt n (by decide)
    refine ⟨ds ++ [n % 16], ?_, ?_⟩
    · simp [hexDigits, List.mapM_append, hds, hexValue?_digit hlast]
    · have hmod : n % 16 ^ (count + 1) = n % 16 + 16 * (n / 16 % 16 ^ count) := by
        rw [Nat.pow_succ', Nat.mod_mul]
      rw [List.foldl_append, hfold, hmod, List.foldl_cons, List.foldl_nil]
      omega

theorem ofDigits?_hexDigits (u : Uuid) : ofDigits? (hexDigits 32 u.value.toNat) = some u := by
  obtain ⟨ds, hds, hfold⟩ := mapM_hexDigits 32 u.value.toNat
  have hlt : u.value.toNat % 16 ^ 32 = u.value.toNat := Nat.mod_eq_of_lt u.value.isLt
  unfold ofDigits?
  rw [hds]
  change some (Uuid.mk (BitVec.ofNat 128 (ds.foldl (fun m d => 16 * m + d) 0))) = some u
  rw [hfold, hlt, BitVec.ofNat_toNat, BitVec.setWidth_eq]

theorem mem_hexDigits {c : Char} {count n : Nat} (h : c ∈ hexDigits count n) :
    ∃ d, d < 16 ∧ c = Hex.digit d := by
  induction count generalizing n with
  | zero => cases h
  | succ count ih =>
    rcases List.mem_append.1 h with h | h
    · exact ih h
    · exact ⟨n % 16, Nat.mod_lt n (by decide), List.mem_singleton.1 h⟩

theorem toLower_digit_ne {n : Nat} (h : n < 16) : (Hex.digit n).toLower ≠ 'u' := by
  have hall : ∀ n ∈ List.range 16, (Hex.digit n).toLower ≠ 'u' := by decide
  exact hall n (List.mem_range.2 h)

/-- A group with a hyphen behind it. -/
theorem ungroup?_cons {size : Nat} {sizes : List Nat} (hne : sizes ≠ []) {cs rest : List Char}
    (h : cs.length = size) :
    ungroup? (size :: sizes) (cs ++ '-' :: rest) = (ungroup? sizes rest).map (cs ++ ·) := by
  cases sizes with
  | nil => exact absurd rfl hne
  | cons s ss => simp [ungroup?, ← h]

theorem ungroup?_last {size : Nat} {cs : List Char} (h : cs.length = size) :
    ungroup? [size] cs = some cs := by
  simp [ungroup?, h]

/-- The text as characters. -/
theorem toList_text (u : Uuid) : ∃ a b c d e : List Char,
    u.text.toList = a ++ '-' :: (b ++ '-' :: (c ++ '-' :: (d ++ '-' :: e))) ∧
      a ++ (b ++ (c ++ (d ++ e))) = hexDigits 32 u.value.toNat ∧ a.length = 8 ∧ b.length = 4 ∧
      c.length = 4 ∧ d.length = 4 ∧ e.length = 12 := by
  have hl := length_hexDigits 32 u.value.toNat
  generalize hds : hexDigits 32 u.value.toNat = ds at hl
  have hstep : ∀ i n : Nat, (ds.drop i).take n ++ ds.drop (i + n) = ds.drop i := by
    intro i n
    rw [← List.drop_drop, List.take_append_drop]
  have hlast : (ds.drop 20).take 12 = ds.drop 20 := List.take_of_length_le (by simp [hl])
  refine ⟨ds.take 8, (ds.drop 8).take 4, (ds.drop 12).take 4, (ds.drop 16).take 4,
    (ds.drop 20).take 12, ?_, ?_, ?_⟩
  · have hjoin : ∀ a b c d e : String,
        "-".intercalate [a, b, c, d, e] = a ++ "-" ++ b ++ "-" ++ c ++ "-" ++ d ++ "-" ++ e :=
      fun _ _ _ _ _ => rfl
    simp [text, hds, chunks, groups, hjoin]
  · rw [hlast, hstep 16, hstep 12, hstep 8, List.take_append_drop]
  · simp [hl]

theorem ofText?_text (u : Uuid) : ofText? u.text = some u := by
  obtain ⟨a, b, c, d, e, htext, hds, ha, hb, hc, hd, he⟩ := toList_text u
  have hungroup : ungroup? groups u.text.toList = some (hexDigits 32 u.value.toNat) := by
    rw [htext, groups, ungroup?_cons (by simp) ha, ungroup?_cons (by simp) hb,
      ungroup?_cons (by simp) hc, ungroup?_cons (by simp) hd, ungroup?_last he, ← hds]
    rfl
  have hlen : u.text.toList.length = 36 := by
    rw [htext]
    simp [ha, hb, hc, hd, he]
  have hurn : (u.text.toList.map Char.toLower).take 9 ≠ urnMark := by
    cases a with
    | nil => cases ha
    | cons x xs =>
      intro h
      have hx : x ∈ hexDigits 32 u.value.toNat := hds ▸ List.mem_cons_self
      obtain ⟨n, hn, rfl⟩ := mem_hexDigits hx
      rw [htext, List.cons_append, List.map_cons, List.take_succ_cons] at h
      exact toLower_digit_ne hn (List.cons.inj h).1
  simp [ofText?, hlen, hurn, hungroup, ofDigits?_hexDigits]

end Uuid
end ObjectSpace
