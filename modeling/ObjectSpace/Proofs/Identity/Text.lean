import Mathlib.Data.List.Basic
import ObjectSpace.Identity.Basic
import ObjectSpace.Proofs.Text.Integer

/-!
# Identities by their text

A class may have any name, also one with slashes and digits in it, so the text of an identity cannot
be cut from the left. From the right it can: what stands behind the last slash is the number, and
what stands between the last two is the partition.
-/

namespace ObjectSpace

theorem eq_nil_of_cons_eq_append {c : Char} {between after after' : List Char} (h : c ∉ after)
    (heq : c :: after = between ++ c :: after') : between = [] := by
  cases between with
  | nil => rfl
  | cons d between =>
    have hmem : c ∈ after := by simp [(List.cons.inj heq).2]
    exact absurd hmem h

/-- Texts are cut at a mark that does not come again. -/
theorem append_cons_inj {c : Char} {before before' after after' : List Char}
    (h : c ∉ after) (h' : c ∉ after') (heq : before ++ c :: after = before' ++ c :: after') :
    before = before' ∧ after = after' := by
  rcases List.append_eq_append_iff.1 heq with ⟨between, hb, ha⟩ | ⟨between, hb, ha⟩
  · obtain rfl := eq_nil_of_cons_eq_append h ha
    exact ⟨(hb.trans (List.append_nil _)).symm, (List.cons.inj ha).2⟩
  · obtain rfl := eq_nil_of_cons_eq_append h' ha
    exact ⟨hb.trans (List.append_nil _), (List.cons.inj ha).2.symm⟩

namespace Identity

theorem slash_not_mem_toDigits (n : Nat) : '/' ∉ Nat.toDigits 10 n := fun h =>
  absurd (Integer.isDigit_of_mem '/' h) (by decide)

theorem toList_text (id : Identity) :
    id.text.toList = (id.classId.toList ++ '/' :: Nat.toDigits 10 id.partition.toNat) ++
      '/' :: Nat.toDigits 10 id.object.toNat := by
  simp [text]

/-- No two identities have one text. -/
theorem text_injective : Function.Injective text := by
  intro a b h
  have hchars := congrArg String.toList h
  rw [toList_text, toList_text] at hchars
  -- the last slash first, then the one before it; the class keeps all others
  obtain ⟨hfront, hobject⟩ :=
    append_cons_inj (slash_not_mem_toDigits _) (slash_not_mem_toDigits _) hchars
  obtain ⟨hclass, hpartition⟩ :=
    append_cons_inj (slash_not_mem_toDigits _) (slash_not_mem_toDigits _) hfront
  have hc : a.classId = b.classId := String.toList_injective hclass
  have hp : a.partition = b.partition := UInt32.toNat_inj.1 (Integer.eq_of_toDigits_eq hpartition)
  have ho : a.object = b.object := UInt64.toNat_inj.1 (Integer.eq_of_toDigits_eq hobject)
  cases a
  cases b
  simp_all

end Identity
end ObjectSpace
