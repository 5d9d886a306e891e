import ObjectSpace.Proofs.Codec.Walk
import ObjectSpace.Proofs.Codec.Writing
import ObjectSpace.Proofs.Json.Text

/-!
# Written documents can be printed

Whatever is written for a value is a document that text holds: no number is infinite, whole numbers
fit 64 bits, and objects are in key order.
-/

namespace ObjectSpace

open Success

namespace Json

theorem printable_int64 (n : Int64) : Printable (int n.toInt) := by
  have hlow : minInt64 ≤ n.toInt := n.minValue_le_toInt
  have hhigh : n.toInt < 2 ^ 64 := lt_trans n.toInt_lt (by decide)
  exact .int (by rw [isInt, decide_eq_true hlow, decide_eq_true hhigh]; rfl)

theorem printable_natCast {n : Nat} (h : n < 2 ^ 64) : Printable (int n) := .int (isInt_natCast h)

end Json

theorem Identity.printable_json (id : Identity) : id.json.Printable := by
  refine .object ?_
  have hpartition : id.partition.toNat < 2 ^ 64 :=
    lt_trans id.partition.toNat_lt_size (by decide)
  unfold jsonMembers
  refine List.forall_mem_cons.2 ⟨.str _,
    List.forall_mem_cons.2 ⟨?_, List.forall_mem_cons.2 ⟨?_, ?_⟩⟩⟩
  · exact Json.printable_natCast hpartition
  · exact Json.printable_natCast id.object.toNat_lt_size
  · exact List.forall_mem_nil _

namespace Shape

open Json (Printable)

theorem printable_of_writePlain {v : Value} {j : Json} (h : Somewhere write any v j) :
    Printable j := by
  obtain ⟨p, h⟩ := h
  induction v generalizing p j with
  | null =>
    cases h
    exact .null
  | bool b =>
    cases h
    exact .bool b
  | int n =>
    cases h
    exact Json.printable_int64 n
  | str s =>
    cases h
    exact .str s
  | bytes | instant | uuid | ref => cases h
  | float x =>
    obtain ⟨hx, rfl⟩ := writeFloat_eq_ok.1 h
    exact .float hx
  | list items ih | set items ih | tuple items ih =>
    obtain ⟨js, hjs, rfl⟩ := map_eq_ok.1 h
    refine .arr fun j hj => ?_
    obtain ⟨v, hv, q, hw⟩ := exists_of_mem_right (forall₂_of_plainArray hjs) hj
    exact ih v hv q hw
  | record members ih =>
    obtain ⟨es, hes, rfl⟩ := map_eq_ok.1 h
    refine .object fun e he => ?_
    obtain ⟨m, hm, _, q, hw⟩ := exists_of_mem_right (forall₂_of_plainObject hes) he
    exact ih m hm q hw
  | map entries ih =>
    obtain ⟨ms, hms, rfl⟩ := map_eq_ok.1 h
    refine .object fun m hm => ?_
    obtain ⟨e, he, _, q, hw⟩ := exists_of_mem_right (forall₂_of_plainEntries hms) hm
    exact (ih e he).2 q hw

/-- What is written can be printed. -/
theorem printable_of_write {s : Shape} {v : Value} {j : Json} (h : Somewhere write s v j) :
    Printable j := by
  obtain ⟨p, h⟩ := h
  induction s generalizing p v j with
  | int =>
    cases v <;> cases h
    exact Json.printable_int64 _
  | bool =>
    cases v <;> cases h
    exact .bool _
  | str | bytes | instant | uuid =>
    cases v <;> cases h
    exact .str _
  | float =>
    obtain ⟨x, _, hx, rfl⟩ := exists_of_write_float h
    exact .float hx
  | choice name variants =>
    obtain ⟨text, _, _, rfl⟩ := exists_of_write_choice h
    exact .str text
  | reference classId =>
    obtain ⟨id, _, _, _, rfl⟩ := exists_of_write_reference h
    exact id.printable_json
  | any => exact printable_of_writePlain ⟨p, h⟩
  | optional inner ih =>
    by_cases hv : v = .null
    · subst hv
      cases h
      exact .null
    · rw [write_optional hv] at h
      exact ih p h
  | union alternatives ih =>
    obtain ⟨⟨s, hs, hw⟩, _⟩ := exists_of_write_union h
    exact ih s hs p hw
  | list element ih =>
    obtain ⟨items, js, _, rfl, hjs⟩ := exists_of_write_list h
    refine .arr fun j hj => ?_
    obtain ⟨_, _, q, hw⟩ := exists_of_mem_right hjs hj
    exact ih q hw
  | set element ih =>
    obtain ⟨items, js, _, rfl, hjs⟩ := exists_of_write_set h
    refine .arr fun j hj => ?_
    obtain ⟨_, _, q, hw⟩ := exists_of_mem_right hjs hj
    exact ih q hw
  | tuple elements ih =>
    obtain ⟨items, js, _, rfl, hjs⟩ := exists_of_write_tuple h
    refine .arr fun j hj => ?_
    obtain ⟨s, hs, _, _, q, hw⟩ := hjs.exists_right hj
    exact ih s hs q hw
  | map key value ihk ihv =>
    obtain ⟨entries, _, ⟨members, rfl, _, hms⟩ | ⟨pairs, rfl, _, hps⟩⟩ := exists_of_write_map h
    · refine .object fun m hm => ?_
      obtain ⟨_, _, _, q, hw⟩ := exists_of_mem_right hms hm
      exact ihv q hw
    · refine .arr fun pair hpair => ?_
      obtain ⟨_, _, k, w, rfl, ⟨q, hk⟩, ⟨r, hw⟩⟩ := exists_of_mem_right hps hpair
      exact .arr (List.forall_mem_cons.2
        ⟨ihk q hk, List.forall_mem_cons.2 ⟨ihv r hw, List.forall_mem_nil _⟩⟩)
  | record name declared ih =>
    obtain ⟨members, es, _, rfl, _, hes⟩ := exists_of_write_record h
    refine .object fun e he => ?_
    obtain ⟨d, hd, _, _, _, q, hw⟩ := hes.exists_of_mem he
    exact ih d hd q hw

end Shape
end ObjectSpace
