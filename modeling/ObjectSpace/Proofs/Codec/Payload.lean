import ObjectSpace.Proofs.Codec.Printing
import ObjectSpace.Proofs.Codec.RoundTrip
import ObjectSpace.Proofs.Instant.Text

/-!
# Payloads read back

A value that goes through the bytes of its document comes back as the same, if text can hold what is
written for it: no deeper than text may nest, with years of four digits, and with unions that keep
the signs of zeros where the order of a set or of keys depends on them.
-/

namespace ObjectSpace
namespace Shape

open Success

/-- The value can go through text that stands in `outer` more arrays and objects. -/
structure Portable (outer : Nat) (s : Shape) (v : Value) : Prop where
  depth : ∀ j, Somewhere write s v j → j.depth + outer ≤ Json.Raw.maxDepth
  instants : ∀ t, Value.Within (.instant t) v → t.IsCommon
  zeros : ∀ alternatives x, KeyUnion alternatives x false s v → KeepsZeros (union alternatives) x

variable {outer : Nat} {s : Shape} {v : Value}

theorem portable_int (h : outer ≤ Json.Raw.maxDepth) (n : Int64) :
    Portable outer int (.int n) := by
  constructor
  · rintro j ⟨p, hj⟩
    cases hj
    exact (Nat.zero_add outer).le.trans h
  · intro t ht
    cases ht
  · intro alternatives x hx
    cases hx

theorem portable_str (h : outer ≤ Json.Raw.maxDepth) (text : String) :
    Portable outer str (.str text) := by
  constructor
  · rintro j ⟨p, hj⟩
    cases hj
    exact (Nat.zero_add outer).le.trans h
  · intro t ht
    cases ht
  · intro alternatives x hx
    cases hx

theorem portable_instant (h : outer ≤ Json.Raw.maxDepth) {t : Instant} (ht : t.IsCommon) :
    Portable outer instant (.instant t) := by
  constructor
  · rintro j ⟨p, hj⟩
    cases hj
    exact (Nat.zero_add outer).le.trans h
  · intro t' ht'
    cases ht'
    exact ht
  · intro alternatives x hx
    cases hx

/-- The document of a canonical value reads as the same value. -/
theorem Portable.roundTrips (hp : Portable outer s v) (hv : Canonical s v) :
    RoundTrips false s v :=
  roundTrips_of_canonical hv (fun t ht => Instant.ofText?_text (hp.instants t ht)) hp.zeros

/-- What is decoded from the text of a document is read from the document. -/
theorem decode_text {j : Json} (hj : j.Printable) (hd : j.depth ≤ Json.Raw.maxDepth)
    (path : String) : s.decode path j.text.toUTF8 = (s.read path j).mapError .mismatch := by
  have hdocument : Payload.document Json.refusal j.text.toUTF8 = .ok j :=
    Payload.document_eq_ok.2 (Json.ofBytes?_text hj hd)
  unfold decode
  rw [Json.isBlank_text hj, hdocument, if_neg (by decide)]
  rfl

/-- What is encoded is decoded from the document that was written. -/
theorem decode_eq_read {path : String} {payload : ByteArray}
    (hd : ∀ j, Somewhere write s v j → j.depth ≤ Json.Raw.maxDepth)
    (h : s.encode path v = .ok payload) : ∃ j, Somewhere write s v j ∧
      Payload.isBlank payload = false ∧
      ∀ q, s.decode q payload = (s.read q j).mapError .mismatch := by
  obtain ⟨j, hj, rfl⟩ := map_eq_ok.1 h
  have hprintable := printable_of_write ⟨path, hj⟩
  exact ⟨j, ⟨_, hj⟩, Json.isBlank_text hprintable, decode_text hprintable (hd j ⟨_, hj⟩)⟩

/-- What is encoded decodes to the same value. -/
theorem decode_of_encode {path : String} {payload : ByteArray} (hv : Canonical s v)
    (hp : Portable outer s v) (h : s.encode path v = .ok payload) :
    Payload.isBlank payload = false ∧
      ∀ q, ∃ v', s.decode q payload = .ok v' ∧ v'.same v = true := by
  obtain ⟨j, hj, hblank, hdecode⟩ :=
    decode_eq_read (fun j hj => le_trans (Nat.le_add_right _ _) (hp.depth j hj)) h
  obtain ⟨v', hread, hsame⟩ := hp.roundTrips hv j hj
  refine ⟨hblank, fun q => ⟨v', ?_, hsame⟩⟩
  rw [hdecode, hread q]
  rfl

end Shape
end ObjectSpace
