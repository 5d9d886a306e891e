import ObjectSpace.Proofs.Codec.Acceptance

/-!
# Which alternative of a union is written

An alternative that has the value but cannot write it ends the search of a union, and that can only
be one with a union inside. So a union writes what one of its alternatives carries, unless an
alternative before that one has the value and holds a union that cannot write its part of it.
-/

namespace ObjectSpace
namespace Shape

open Success

/-! ## Alternatives that are not in the way -/

/-- Where another alternative writes the value, its references are valid, so only a union inside it
can keep an alternative from writing it too. -/
theorem passes_of_unions {a b : Shape} {v : Value} (hv : v.WellFormed) (ha : Writable a v)
    (hb : ∀ alternatives x, At (union alternatives) x b v → Writable (union alternatives) x) :
    Passes b v := by
  intro haccepts
  obtain ⟨j, hj⟩ := ha
  exact writable_of_accepts haccepts (.intro
    (fun _ _ hat => valid_of_write hv ⟨"", hj ""⟩ hat.within)
    fun alternatives x hat => toldApart_of_writable (hb alternatives x hat))

/-- If some alternative has the value and writes a document that the whole union reads as the value,
the union writes a document which it reads as the value, unless an alternative before that one has
the value and holds a union in it that cannot be written. -/
theorem write_union_of_alternative {before after : List Shape} {a : Shape} {v : Value}
    (hv : v.WellFormed) (ha : a.accepts v = true) {p q : String} {j : Json} {v' : Value}
    (hw : write p a v = .ok j) (hr : read q (union (before ++ a :: after)) j = .ok v')
    (hsame : v'.same v = true)
    (hbefore : ∀ b ∈ before, b.accepts v = true → ∀ alternatives x,
      At (union alternatives) x b v → Writable (union alternatives) x) (path : String) :
    ∃ j w, write path (union (before ++ a :: after)) v = .ok j ∧
      read path (union (before ++ a :: after)) j = .ok w ∧ w.same v = true := by
  have hwrites : Writes a v j := writes_of_write ⟨p, hw⟩
  have hcarries : Carries (before ++ a :: after) a v :=
    ⟨ha, j, v', hwrites, reads_of_read ⟨q, hr⟩, hsame⟩
  have hpasses : ∀ b ∈ before, Passes b v := fun b hb haccepts =>
    passes_of_unions hv ⟨j, hwrites⟩ (hbefore b hb haccepts) haccepts
  obtain ⟨j', hj'⟩ := writable_union_iff.2 ⟨before, a, after, rfl, hpasses, hcarries⟩
  obtain ⟨_, w, hread, hback⟩ := exists_of_write_union (hj' path)
  exact ⟨j', w, hj' path, hread, hback⟩

/-- A record of one whole number. Its document is an object, like that of a map by names. -/
def single : Shape := record "Single" [⟨"a", int, none⟩]

/-- A map whose document is an array of pairs, since its keys may be null. -/
def pairs : Shape := map (optional str) int

def one : Value := .map [(.str "a", .int 1)]

theorem wellFormed_one : one.WellFormed := by
  intro members h
  cases h with
  | key he h | value he h =>
    rw [List.mem_singleton.1 he] at h
    cases h

theorem write_union_of_alternative_pairs :
    let s := union [single, map str (union [int, str]), pairs]
    write "" pairs one = .ok (.arr [.arr [.str "a", .int 1]]) ∧
      ∃ j w, write "" s one = .ok j ∧ read "" s j = .ok w ∧ w.same one = true := by
  intro s
  have hw : write "" pairs one = .ok (.arr [.arr [.str "a", .int 1]]) := rfl
  have hr : read "" s (.arr [.arr [.str "a", .int 1]]) = .ok one := rfl
  refine ⟨hw, @write_union_of_alternative [single, map str (union [int, str])] [] pairs one
    wellFormed_one rfl "" "" _ _ hw hr rfl ?_ ""⟩
  intro b hb haccepts alternatives x hat
  simp only [List.mem_cons, List.not_mem_nil, or_false] at hb
  rcases hb with rfl | rfl
  · cases haccepts
  · cases hat with
    | key he h =>
      cases h
    | value he h =>
      rw [List.mem_singleton.1 he] at h
      cases h
      exact ⟨.int 1, fun _ => rfl⟩

/-- The first alternative has the value, as a map by names, but its document would read as a record
there. This ends the search, although the document of the second one reads as the value. -/
theorem carried_value_refused :
    ¬ ∀ (alternatives : List Shape) (a : Shape) (v : Value) (j : Json), v.WellFormed →
      a ∈ alternatives → a.accepts v = true → write "" a v = .ok j →
      read "" (union alternatives) j = .ok v →
      ∃ j', write "" (union alternatives) v = .ok j' ∧ read "" (union alternatives) j' = .ok v := by
  intro h
  obtain ⟨j, hj, _⟩ := h [union [single, map str int], pairs] pairs one
    (.arr [.arr [.str "a", .int 1]]) wellFormed_one (by simp) rfl rfl rfl
  cases hj

end Shape
end ObjectSpace
