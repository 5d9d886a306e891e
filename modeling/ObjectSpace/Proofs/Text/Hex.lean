import ObjectSpace.Text.Hex

/-!
# Hexadecimal text reads back

A half byte is written as one digit, which reads as this half byte; so the bytes that are read are
those that were written, pair by pair.
-/

namespace ObjectSpace
namespace Hex

theorem utf8_digit {n : Nat} (h : n < 16) :
    ∃ b, String.utf8EncodeChar (digit n) = [b] ∧ value? b = some n := by
  have hall : ∀ n ∈ List.range 16, (String.utf8EncodeChar (digit n)).map value? = [some n] := by
    decide
  exact List.map_eq_singleton_iff.1 (hall n (List.mem_range.2 h))

/-- The bytes of the two digits of a byte. -/
theorem utf8_pair (b : UInt8) : ∃ high low,
    (pair b).flatMap String.utf8EncodeChar = [high, low] ∧
      value? high = some (b.toNat / 16) ∧ value? low = some (b.toNat % 16) := by
  have hb : b.toNat < 256 := b.toNat_lt_size
  obtain ⟨high, hhigh, hvhigh⟩ := utf8_digit (n := b.toNat / 16) (by omega)
  obtain ⟨low, hlow, hvlow⟩ := utf8_digit (n := b.toNat % 16) (by omega)
  exact ⟨high, low, by simp [pair, hhigh, hlow], hvhigh, hvlow⟩

theorem pairs_flatMap (position : Nat) (bs : List UInt8) :
    pairs position ((bs.flatMap pair).flatMap String.utf8EncodeChar) = .ok bs := by
  induction bs generalizing position with
  | nil => rfl
  | cons b bs ih =>
    obtain ⟨high, low, hpair, hhigh, hlow⟩ := utf8_pair b
    have hb : 16 * (b.toNat / 16) + b.toNat % 16 = b.toNat := Nat.div_add_mod b.toNat 16
    rw [List.flatMap_cons, List.flatMap_append, hpair]
    simp only [List.cons_append, List.nil_append, pairs, hhigh, hlow, ih, hb, UInt8.ofNat_toNat]
    rfl

theorem length_flatMap_pair (bs : List UInt8) :
    ((bs.flatMap pair).flatMap String.utf8EncodeChar).length = 2 * bs.length := by
  induction bs with
  | nil => rfl
  | cons b bs ih =>
    obtain ⟨high, low, hpair, _, _⟩ := utf8_pair b
    rw [List.flatMap_cons, List.flatMap_append, hpair, List.length_append, ih]
    simp only [List.length_cons, List.length_nil]
    omega

theorem utf8_encode (bytes : ByteArray) : (encode bytes).toUTF8.data.toList =
    (bytes.data.toList.flatMap pair).flatMap String.utf8EncodeChar := by
  simp [encode, List.utf8Encode]

theorem decode_encode (bytes : ByteArray) : decode (encode bytes) = .ok bytes := by
  have heven : 2 * bytes.data.toList.length % 2 = 0 := Nat.mul_mod_right 2 _
  simp only [decode, utf8_encode, length_flatMap_pair, heven, if_true, pairs_flatMap]
  rfl

end Hex
end ObjectSpace
