import ObjectSpace.Json.Token

/-!
# Strings read back

Every character is escaped on its own, and what it is escaped to is split off, checked and read on
its own. So a string that was escaped reads as it was, whatever follows its closing quote.
-/

namespace ObjectSpace
namespace Json

theorem hexDigit?_digitChar {n : Nat} (h : n < 16) : hexDigit? (Nat.digitChar n) = some n := by
  have hall : ∀ n < 16, hexDigit? (Nat.digitChar n) = some n := by decide
  exact hall n h

/-- The two digits of a control character. -/
theorem unit?_control {n : Nat} (h : n < 32) :
    unit? '0' '0' (Nat.digitChar (n / 16)) (Nat.digitChar (n % 16)) = some n := by
  have hhigh := hexDigit?_digitChar (n := n / 16) (by omega)
  have hlow := hexDigit?_digitChar (n := n % 16) (by omega)
  have hzero : hexDigit? '0' = some 0 := rfl
  have hn : (0 * 16 + 0) * 256 + n / 16 * 16 + n % 16 = n := by omega
  simp only [unit?, hhigh, hlow, hzero, Option.bind_eq_bind, Option.bind_some, hn]

/-- How a character is written: behind a backslash, as a unit, or as itself. -/
theorem escapeChar_cases (c : Char) :
    (∃ e, escapeChar c = ['\\', e] ∧ e ≠ 'u' ∧ simpleEscapes.lookup e = some c) ∨
    (c.toNat < 32 ∧ escapeChar c =
      ['\\', 'u', '0', '0', Nat.digitChar (c.toNat / 16), Nat.digitChar (c.toNat % 16)]) ∨
    (escapeChar c = [c] ∧ c ≠ '"' ∧ c ≠ '\\' ∧ 32 ≤ c.toNat) := by
  unfold escapeChar
  split
  case isTrue h => exact .inl ⟨'"', rfl, by decide, by rw [h]; rfl⟩
  case isFalse hquote =>
  split
  case isTrue h => exact .inl ⟨'\\', rfl, by decide, by rw [h]; rfl⟩
  case isFalse hbackslash =>
  split
  case isTrue h => exact .inl ⟨'b', rfl, by decide, by rw [h]; rfl⟩
  split
  case isTrue h => exact .inl ⟨'f', rfl, by decide, by rw [h]; rfl⟩
  split
  case isTrue h => exact .inl ⟨'n', rfl, by decide, by rw [h]; rfl⟩
  split
  case isTrue h => exact .inl ⟨'r', rfl, by decide, by rw [h]; rfl⟩
  split
  case isTrue h => exact .inl ⟨'t', rfl, by decide, by rw [h]; rfl⟩
  split
  case isTrue h => exact .inr (.inl ⟨h, rfl⟩)
  case isFalse h => exact .inr (.inr ⟨rfl, hquote, hbackslash, Nat.le_of_not_lt h⟩)

theorem splitString_escapeChar (c : Char) (rest : List Char) :
    splitString (escapeChar c ++ rest) =
      (splitString rest).map fun (raw, tail) => (escapeChar c ++ raw, tail) := by
  rcases escapeChar_cases c with ⟨e, h, _⟩ | ⟨hc, h⟩ | ⟨h, hquote, hbackslash, _⟩
  · rw [h]
    rfl
  · rw [h]
    have hdigit : ∀ n < 16, Nat.digitChar n ≠ '"' ∧ Nat.digitChar n ≠ '\\' := by decide
    obtain ⟨hq, hb⟩ := hdigit (c.toNat / 16) (by omega)
    obtain ⟨hq', hb'⟩ := hdigit (c.toNat % 16) (by omega)
    simp [splitString, hb, hb', Function.comp_def]
  · rw [h]
    simp [splitString, hbackslash]

theorem isEscaped_escapeChar (c : Char) (rest : List Char) :
    isEscaped (escapeChar c ++ rest) = isEscaped rest := by
  rcases escapeChar_cases c with ⟨e, h, hu, he⟩ | ⟨hc, h⟩ | ⟨h, _, hbackslash, hc⟩
  · rw [h]
    simp [isEscaped, hu, he]
  · rw [h]
    simp [isEscaped, unit?_control hc]
  · rw [h]
    simp [isEscaped, hbackslash, hc]

theorem unescape_escapeChar (c : Char) (rest : List Char) :
    unescape (escapeChar c ++ rest) = (unescape rest).map (c :: ·) := by
  rcases escapeChar_cases c with ⟨e, h, hu, he⟩ | ⟨hc, h⟩ | ⟨h, _, hbackslash, hc⟩
  · rw [h]
    simp [unescape, hu, he]
  · rw [h]
    have hhigh : ¬0xD800 ≤ c.toNat := by omega
    have hlow : ¬0xDC00 ≤ c.toNat := by omega
    simp [unescape, unit?_control hc, hhigh, hlow]
  · rw [h]
    simp [unescape, hbackslash, Nat.not_lt.2 hc]

theorem splitString_escape (s : String) (rest : List Char) :
    splitString (escape s ++ '"' :: rest) = some (escape s, rest) := by
  unfold escape
  induction s.toList with
  | nil => rfl
  | cons c cs ih =>
    rw [List.flatMap_cons, List.append_assoc, splitString_escapeChar, ih]
    rfl

theorem isEscaped_escape (s : String) : isEscaped (escape s) = true := by
  unfold escape
  induction s.toList with
  | nil => rfl
  | cons c cs ih => rw [List.flatMap_cons, isEscaped_escapeChar, ih]

theorem unescape_escape (s : String) : unescape (escape s) = some s.toList := by
  unfold escape
  induction s.toList with
  | nil => rfl
  | cons c cs ih =>
    rw [List.flatMap_cons, unescape_escapeChar, ih]
    rfl

end Json
end ObjectSpace
