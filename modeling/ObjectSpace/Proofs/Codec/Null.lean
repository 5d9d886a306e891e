import Mathlib.Data.List.TFAE
import ObjectSpace.Codec.Payload
import ObjectSpace.Proofs.Codec.Walk

/-!
# Where null is a value

Five recursions over a shape come to the question whether null is a value of it: `isNullable`,
`accepts`, coercion, writing and reading; and for a blank payload decoding does. They answer alike.
A shape that is not nullable has null refused by all of them, so null is never taken for something
else on the way.
-/

namespace ObjectSpace

/-- A step that ends in `b` if it is allowed to, and else fails. -/
inductive Grants {ε β : Type} (b : β) : Bool → Except ε β → Prop
  | granted : Grants b true (.ok b)
  | refused (e : ε) : Grants b false (.error e)

namespace Grants

variable {ε ε' β : Type} {b : β} {allowed : Bool} {x : Except ε β}

theorem eq_ok_iff (h : Grants b allowed x) : x = .ok b ↔ allowed = true := by
  cases h <;> simp

theorem exists_error (h : Grants b false x) : ∃ e, x = .error e := by
  cases h with
  | refused e => exact ⟨e, rfl⟩

theorem mapError (h : Grants b allowed x) (f : ε → ε') : Grants b allowed (x.mapError f) := by
  cases h with
  | granted => exact .granted
  | refused e => exact .refused (f e)

end Grants

namespace Shape

/-! ## Accepting -/

theorem anyAccepts_null {ss : List Shape} (h : ∀ s ∈ ss, s.accepts .null = s.isNullable) :
    anyAccepts ss .null = anyNullable ss := by
  rw [Bool.eq_iff_iff, anyAccepts_iff, anyNullable_iff]
  refine exists_congr fun s => and_congr_right fun hs => ?_
  rw [h s hs]

theorem accepts_null (s : Shape) : s.accepts .null = s.isNullable := by
  induction s with
  | union alternatives ih => exact anyAccepts_null ih
  | _ => rfl

/-! ## Reading -/

/-- The first alternative that can do the step does it with null. -/
theorem grants_first (first : List Shape → Except (List String) Value)
    {step : Shape → Except Mismatch Value} (hnil : first [] = .error [])
    (hcons : ∀ s ss, first (s :: ss) = match step s with
      | .ok v => .ok v
      | .error m => (first ss).mapError ((s.label ++ ": " ++ m.received) :: ·))
    {ss : List Shape} (h : ∀ s ∈ ss, Grants .null s.isNullable (step s)) :
    Grants .null (anyNullable ss) (first ss) := by
  induction ss with
  | nil =>
    rw [hnil]
    exact .refused []
  | cons s ss ih =>
    obtain ⟨hs, hss⟩ := List.forall_mem_cons.1 h
    rw [hcons, anyNullable]
    generalize s.isNullable = allowed, step s = x at hs
    cases hs with
    | granted => exact .granted
    | refused m => exact (ih hss).mapError _

theorem grants_read_null (path : String) (s : Shape) :
    Grants .null s.isNullable (read path s .null) := by
  induction s with
  | optional inner => exact .granted
  | any => exact .granted
  | union alternatives ih =>
    exact (grants_first (readFirst path · .null) rfl (fun _ _ => rfl) ih).mapError _
  | _ => exact .refused _

/-! ## Coercing -/

/-- An alternative that accepts null coerces it to itself, so no other one is tried. -/
theorem coerceAccepted_null {path : String} {ss : List Shape}
    (h : ∀ s ∈ ss, Grants .null s.isNullable (coerce path s .null)) :
    coerceAccepted path ss .null = if anyNullable ss then some (.ok .null) else none := by
  induction ss with
  | nil => rfl
  | cons s ss ih =>
    obtain ⟨hs, hss⟩ := List.forall_mem_cons.1 h
    rw [coerceAccepted, accepts_null, anyNullable, ih hss]
    cases hn : s.isNullable with
    | true =>
      rw [if_pos rfl, hs.eq_ok_iff.2 hn]
      rfl
    | false => rfl

theorem grants_coerce_null (path : String) (s : Shape) :
    Grants .null s.isNullable (coerce path s .null) := by
  induction s with
  | optional inner => exact .granted
  | any => exact .granted
  | union alternatives ih =>
    have hfirst := grants_first (coerceFirst path · .null) rfl (fun _ _ => rfl) ih
    rw [coerce, coerceAccepted_null ih, isNullable]
    generalize anyNullable alternatives = allowed, coerceFirst path alternatives .null = x
      at hfirst
    cases hfirst with
    | granted => exact .granted
    | refused ms => exact .refused _
  | _ => exact .refused _

/-! ## Writing -/

/-- Null is written under the first alternative that accepts it, since it reads back as null. -/
theorem writeFirst_null {path : String} {all ss : List Shape}
    (hback : readFirst path all .null = .ok .null)
    (h : ∀ s ∈ ss, Grants .null s.isNullable (write path s .null))
    (hn : anyNullable ss = true) : writeFirst path all ss .null = .ok (some .null) := by
  induction ss with
  | nil => cases hn
  | cons s ss ih =>
    obtain ⟨hs, hss⟩ := List.forall_mem_cons.1 h
    rw [writeFirst, accepts_null]
    split
    case isTrue hnullable =>
      refine Success.bind_eq_ok.2 ⟨.null, hs.eq_ok_iff.2 hnullable, ?_⟩
      rw [hback]
      rfl
    case isFalse hnullable =>
      rw [anyNullable, Bool.or_eq_true] at hn
      exact ih hss (hn.resolve_left hnullable)

theorem grants_write_null (path : String) (s : Shape) :
    Grants .null s.isNullable (write path s .null) := by
  induction s with
  | optional inner => exact .granted
  | any => exact .granted
  | union alternatives ih =>
    rw [write, anyAccepts_null fun s _ => accepts_null s, isNullable]
    cases hn : anyNullable alternatives with
    | true =>
      have hfirst := grants_first (readFirst path · .null) rfl (fun _ _ => rfl)
        fun s (_ : s ∈ alternatives) => grants_read_null path s
      rw [writeFirst_null (hfirst.eq_ok_iff.2 hn) ih hn]
      exact .granted
    | false => exact .refused _
  | _ => exact .refused _

/-! ## All of them -/

theorem grants_decode_blank (path : String) (s : Shape) {payload : ByteArray}
    (h : Payload.isBlank payload = true) : Grants .null s.isNullable (decode path s payload) := by
  rw [decode, if_pos h]
  cases s.isNullable with
  | true => exact .granted
  | false => exact .refused _

/-- All parts of the codec agree on whether null is a value of a shape, wherever it stands. -/
theorem nullable_tfae (s : Shape) (path : String) {payload : ByteArray}
    (hblank : Payload.isBlank payload = true) :
    [s.isNullable = true,
      s.accepts .null = true,
      coerce path s .null = .ok .null,
      write path s .null = .ok .null,
      read path s .null = .ok .null,
      decode path s payload = .ok .null].TFAE ∧
    (s.isNullable = false →
      (∃ m, coerce path s .null = .error m) ∧
      (∃ e, write path s .null = .error e) ∧
      (∃ m, read path s .null = .error m) ∧
      ∃ e, decode path s payload = .error e) := by
  have hcoerce := grants_coerce_null path s
  have hwrite := grants_write_null path s
  have hread := grants_read_null path s
  have hdecode := grants_decode_blank path s hblank
  constructor
  · rw [accepts_null, hcoerce.eq_ok_iff, hwrite.eq_ok_iff, hread.eq_ok_iff, hdecode.eq_ok_iff]
    intro p hp q hq
    simp only [List.mem_cons, List.not_mem_nil, or_false, or_self] at hp hq
    rw [hp, hq]
  · intro hn
    rw [hn] at hcoerce hwrite hread hdecode
    exact ⟨hcoerce.exists_error, hwrite.exists_error, hread.exists_error, hdecode.exists_error⟩

/-- Null is a value of it only through the last alternative of its last alternative. -/
def remark : Shape := union [instant, union [list any, tuple [optional str], optional (set int)]]

theorem nullable_tfae_remark :
    Payload.isBlank ⟨#[0x20, 0x0A]⟩ = true ∧
      write "" remark .null = .ok .null ∧ decode "" remark ⟨#[0x20, 0x0A]⟩ = .ok .null ∧
      ∃ m, coerce "" (tuple [remark]) .null = .error m := by
  have hblank : Payload.isBlank ⟨#[0x20, 0x0A]⟩ = true := by
    simp [Payload.isBlank, Text.isAsciiBlank]
  have hagree := (nullable_tfae remark "" hblank).1
  have hnullable : remark.isNullable = true := rfl
  exact ⟨hblank, (hagree.out 0 3).1 hnullable, (hagree.out 0 5).1 hnullable,
    ((nullable_tfae (tuple [remark]) "" hblank).2 rfl).1⟩

end Shape
end ObjectSpace
