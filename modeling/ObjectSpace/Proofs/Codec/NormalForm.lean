import ObjectSpace.Proofs.Codec.RoundTrip
import ObjectSpace.Proofs.Codec.Writable
import ObjectSpace.Proofs.Instant.Text

/-!
# What is read can be written again

Reading takes many spellings of a value and writing makes one of them. Without unions, and with
defaults that a document can tell, a value that comes out of a document is always one that can be
written: its references were checked when they were read, and a leap second that was read ends a
minute. Its own document then reads as exactly this value.
-/

namespace ObjectSpace

namespace Value

/-- Of the values without parts, the references that are valid and the instants whose leap second
ends a minute can be told in a document, and so can all others. An instant with a leap second in the
middle of a minute can be stored, but no text spells it. -/
def IsExpressible : Value → Prop
  | ref id => id.validate = .ok ()
  | instant t => t.IsRegular
  | _ => True

end Value

namespace Shape

open Success

/-- All references and instants in the defaults of the shape can be told in a document. -/
def ExpressibleDefaults (s : Shape) : Prop :=
  ∀ name declared, Part (record name declared) s → ∀ d ∈ declared, ∀ v, d.default = some v →
    ∀ x, Value.Within x v → x.IsExpressible

theorem isExpressible_of_isPlain {x v : Value} (hx : Value.Within x v) (h : v.isPlain = true) :
    x.IsExpressible := by
  induction hx with
  | self => cases x <;> trivial
  | list hv _ ih => exact ih (allPlain_iff.1 h _ hv)
  | member hm _ ih => exact ih (membersPlain_iff.1 h _ hm)
  | set | tuple | key | value => cases h

theorem isExpressible_of_ifAbsent? {d : Member Shape}
    (hd : ∀ v, d.default = some v → ∀ x, Value.Within x v → x.IsExpressible) {v x : Value}
    (hv : d.ifAbsent? = some v) (hx : Value.Within x v) : x.IsExpressible := by
  rcases ifAbsent?_cases hv with hdefault | ⟨_, rfl⟩
  · exact hd v hdefault x hx
  · cases hx
    trivial

/-- Everything in a value that is read can be told in a document. -/
theorem isExpressible_of_read {s : Shape} (hs : s.ExpressibleDefaults) {j : Json}
    (hj : j.WellFormed) {v : Value} (h : Somewhere read s j v) {x : Value}
    (hx : Value.Within x v) : x.IsExpressible := by
  obtain ⟨p, h⟩ := h
  induction s generalizing p v j with
  | int | float | bool | str | bytes | uuid | choice =>
    cases canonical_of_read (by rintro _ _ ⟨⟩) hj h; cases hx; trivial
  | instant =>
    obtain ⟨text, _, h⟩ := bind_eq_ok.1 h
    obtain ⟨t, ht, rfl⟩ := instantOfText_eq_ok.1 h
    cases hx
    exact Instant.isRegular_of_ofText? ht
  | reference classId =>
    obtain ⟨_, id, _, rfl, _, _, hvalid⟩ := readReference_eq_ok.1 h
    cases hx
    exact hvalid
  | any =>
    cases h
    exact isExpressible_of_isPlain hx (canonical_plainOfJson hj).accepts
  | optional inner ih =>
    by_cases hnull : j = .null
    · subst hnull
      cases h
      cases hx
      trivial
    · rw [read_optional hnull] at h
      exact ih (fun n ds hp => hs n ds (.optional hp)) hj hx p h
  | union alternatives ih =>
    obtain ⟨s, hmem, hr⟩ := exists_of_readFirst (mapError_eq_ok.1 h)
    exact ih s hmem (fun n ds hp => hs n ds (.union hmem hp)) hj hx p hr
  | list element ih =>
    obtain ⟨js, vs, rfl, rfl, hvs⟩ := exists_of_read_list h
    cases hx with
    | self => trivial
    | list hv hx =>
      obtain ⟨j, hmem, q, hr⟩ := exists_of_mem_right hvs hv
      exact ih (fun n ds hp => hs n ds (.list hp)) (hj.items j hmem) hx q hr
  | set element ih =>
    obtain ⟨js, vs, rfl, rfl, hvs⟩ := exists_of_read_set h
    cases hx with
    | self => trivial
    | set hv hx =>
      obtain ⟨j, hmem, q, hr⟩ := exists_of_mem_right hvs (Ordered.mem_of_mem_distinct hv)
      exact ih (fun n ds hp => hs n ds (.set hp)) (hj.items j hmem) hx q hr
  | tuple elements ih =>
    obtain ⟨js, vs, rfl, rfl, hvs⟩ := exists_of_read_tuple h
    cases hx with
    | self => trivial
    | tuple hv hx =>
      obtain ⟨s, hs', j, hmem, q, hr⟩ := hvs.exists_right hv
      exact ih s hs' (fun n ds hp => hs n ds (.tuple hs' hp)) (hj.items j hmem) hx q hr
  | map key value ihk ihv =>
    have hkey : key.ExpressibleDefaults := fun n ds hp => hs n ds (.key hp)
    have hvalue : value.ExpressibleDefaults := fun n ds hp => hs n ds (.value hp)
    obtain ⟨entries, hc, hrs⟩ := exists_of_read_entries hj h
    obtain ⟨sorted, rfl, hperm, _⟩ := canonicalEntries_eq_ok.1 hc
    cases hx with
    | self => trivial
    | key he hx =>
      obtain ⟨⟨k, hk, q, hr⟩, _⟩ := hrs _ (hperm.mem_iff.1 he)
      exact ihk hkey hk hx q hr
    | value he hx =>
      obtain ⟨_, w, hw, q, hr⟩ := hrs _ (hperm.mem_iff.1 he)
      exact ihv hvalue hw hx q hr
  | record name declared ih =>
    obtain ⟨members, rs, rfl, rfl, hrs⟩ := exists_of_read_record h
    cases hx with
    | self => trivial
    | member hm hx =>
      obtain ⟨m, hm, hv⟩ := Entries.exists_mem_of_mem_ofList hm
      obtain ⟨d, hd, _, hfilled⟩ := exists_of_mem_right hrs hm
      rw [← hv] at hx
      cases hl : Entries.lookup d.name members with
      | some a =>
        rw [hl] at hfilled
        obtain ⟨q, hr⟩ := hfilled
        have ha : a.WellFormed := hj.members _ (Entries.mem_of_lookup hl)
        exact ih d hd (fun n ds hp => hs n ds (.member hd hp)) ha hx q hr
      | none =>
        rw [hl] at hfilled
        exact isExpressible_of_ifAbsent? (hs name declared .self d hd) hfilled hx

theorem KeyUnion.part {alternatives : List Shape} {x : Value} {inKey : Bool} {s : Shape} {v : Value}
    (h : KeyUnion alternatives x inKey s v) : Part (union alternatives) s := by
  induction h with
  | here => exact .self
  | optional _ ih => exact .optional ih
  | list _ _ ih => exact .list ih
  | set _ _ ih => exact .set ih
  | tuple hmem _ ih => exact .tuple (List.of_mem_zip hmem).1 ih
  | key _ _ ih => exact .key ih
  | value _ _ ih => exact .value ih
  | member hd _ _ ih => exact .member hd ih

/-- A value that is read for a shape without unions is written, and its document reads as the very
same value, however the first document was spelled. -/
theorem read_write_read {s : Shape} (hs : s.Proper) (hu : s.UnionFree)
    (hd : s.ExpressibleDefaults) {p q r : String} {j : Json} (hj : j.WellFormed) {v : Value}
    (h : read p s j = .ok v)
    (hyears : ∀ t, Value.Within (.instant t) v →
      0 ≤ (Date.ofDays (t.seconds / Instant.secondsPerDay)).year ∧
        (Date.ofDays (t.seconds / Instant.secondsPerDay)).year ≤ 9999) :
    ∃ j', write q s v = .ok j' ∧ read r s j' = .ok v ∧ v.same v = true := by
  have hcanonical : Canonical s v := canonical_of_read hs hj h
  have hexpressible : ∀ x, Value.Within x v → x.IsExpressible :=
    fun x hx => isExpressible_of_read hd hj ⟨p, h⟩ hx
  have hclear : Unobstructed s v :=
    .of_unionFree hu fun _ id hat => hexpressible (.ref id) hat.within
  have htexts : ∀ t, Value.Within (.instant t) v → Instant.ofText? t.text = some t := by
    intro t ht
    obtain ⟨hlow, hhigh⟩ := hyears t ht
    exact Instant.ofText?_text ⟨hlow, hhigh, hexpressible (.instant t) ht⟩
  obtain ⟨j', hj'⟩ := writable_of_accepts hcanonical.accepts hclear
  have hback : RoundTrips true s v := roundTrips_of_canonical hcanonical htexts
    fun alternatives _ hkey => absurd hkey.part (hu alternatives)
  obtain ⟨v', hread, rfl⟩ := hback j' ⟨q, hj' q⟩
  exact ⟨j', hj' q, hread r, Value.same_self hcanonical.isFinite⟩

/-! ## Defaults that no document tells -/

/-- All references in the defaults of the shape have a number that can be written. -/
def InRangeDefaults (s : Shape) : Prop :=
  ∀ name declared, Part (record name declared) s → ∀ d ∈ declared, ∀ v, d.default = some v →
    ∀ id, Value.Within (.ref id) v → id.object.toNat < 2 ^ 63

/-- A record of one member, which may be left out. -/
def lone (s : Shape) (v : Value) : Shape := record "Stamp" [⟨"at", s, some v⟩]

section

variable {s : Shape} {v : Value}

theorem eq_lone_of_part (hs : ∀ name declared, ¬Part (record name declared) s) {name : String}
    {declared : List (Member Shape)} (h : Part (record name declared) (lone s v)) :
    declared = [⟨"at", s, some v⟩] := by
  cases h with
  | self => rfl
  | member hm h =>
    obtain rfl := List.mem_singleton.1 hm
    exact absurd h (hs name declared)

theorem proper_lone (hs : ∀ name declared, ¬Part (record name declared) s)
    (hv : Canonical s v) : (lone s v).Proper := by
  intro name declared hp
  obtain rfl := eq_lone_of_part hs hp
  refine ⟨List.nodup_singleton _, fun d hd w hw => ?_⟩
  obtain rfl := List.mem_singleton.1 hd
  cases hw
  exact hv

theorem unionFree_lone (hu : s.UnionFree) : (lone s v).UnionFree := by
  intro alternatives hp
  cases hp with
  | member hm hp =>
    obtain rfl := List.mem_singleton.1 hm
    exact hu alternatives hp

theorem inRangeDefaults_lone (hs : ∀ name declared, ¬Part (record name declared) s)
    (hv : ∀ id, Value.Within (.ref id) v → id.object.toNat < 2 ^ 63) :
    (lone s v).InRangeDefaults := by
  intro name declared hp d hd w hw id hid
  obtain rfl := eq_lone_of_part hs hp
  obtain rfl := List.mem_singleton.1 hd
  cases hw
  exact hv id hid

theorem within_lone {x : Value} (hx : Value.Within x (.record [("at", v)])) :
    x = .record [("at", v)] ∨ Value.Within x v := by
  cases hx with
  | self => exact .inl rfl
  | member hm hx =>
    obtain rfl := List.mem_singleton.1 hm
    exact .inr hx

end

/-- The number is fine, but there is no class of this name. -/
def nameless : Identity := ⟨"", 0, 1⟩

/-- Half a second into a leap second that ends no minute. -/
def stray : Instant := ⟨0, 1500000000, by decide⟩

theorem nameless_not_written (j : Json) :
    write "" (lone (reference "") (.ref nameless)) (.record [("at", .ref nameless)]) ≠ .ok j := by
  intro h
  have hwritable : Writable _ _ := ⟨j, writes_of_write ⟨"", h⟩⟩
  have hvalid : nameless.validate = .ok () :=
    hwritable.reference_valid (.member List.mem_cons_self rfl .here)
  cases hvalid

theorem stray_misread :
    ∃ j v, write "" (lone instant (.instant stray)) (.record [("at", .instant stray)]) = .ok j ∧
      read "" (lone instant (.instant stray)) j = .ok v ∧
      (Value.record [("at", .instant stray)]).same v = false := by
  have htext : Instant.ofText? stray.text = some ⟨1, 500000000, by decide⟩ := by decide +kernel
  have hread : Reads instant (.str stray.text) (.instant ⟨1, 500000000, by decide⟩) := fun _ =>
    bind_eq_ok.2 ⟨_, rfl, instantOfText_eq_ok.2 ⟨_, htext, rfl⟩⟩
  refine ⟨.obj [("at", .str stray.text)], .record [("at", .instant ⟨1, 500000000, by decide⟩)],
    rfl, ?_, by decide⟩
  exact @reads_record _ _ _ [("at", .instant ⟨1, 500000000, by decide⟩)]
    (.cons ⟨rfl, hread⟩ .nil) ""

/-- It is not enough that defaults are canonical and their references in range. A document without
the member gives the default. A reference to no class is then not written, and of a leap second that
ends no minute a text is written which reads as half a second later. -/
theorem read_write_read_untold :
    (Json.obj []).WellFormed ∧
    (let s := lone (reference "") (.ref nameless)
     let v := Value.record [("at", .ref nameless)]
     s.Proper ∧ s.UnionFree ∧ s.InRangeDefaults ∧ read "" s (.obj []) = .ok v ∧
      (∀ t, ¬Value.Within (.instant t) v) ∧ ∀ j, write "" s v ≠ .ok j) ∧
    (let s := lone instant (.instant stray)
     let v := Value.record [("at", .instant stray)]
     s.Proper ∧ s.UnionFree ∧ s.InRangeDefaults ∧ read "" s (.obj []) = .ok v ∧
      (∀ t, Value.Within (.instant t) v →
        (Date.ofDays (t.seconds / Instant.secondsPerDay)).year = 1970) ∧
      ∃ j w, write "" s v = .ok j ∧ read "" s j = .ok w ∧ v.same w = false) := by
  refine ⟨.obj (fun _ h => nomatch h), ⟨?_, ?_, ?_, rfl, ?_, nameless_not_written⟩,
    ?_, ?_, ?_, rfl, ?_, stray_misread⟩
  · exact proper_lone (fun _ _ => nofun) (.reference nameless)
  · exact unionFree_lone fun _ => nofun
  · refine inRangeDefaults_lone (fun _ _ => nofun) fun id hid => ?_
    cases hid
    decide
  · intro t ht
    rcases within_lone ht with ht | ht <;> cases ht
  · exact proper_lone (fun _ _ => nofun) (.instant stray)
  · exact unionFree_lone fun _ => nofun
  · exact inRangeDefaults_lone (fun _ _ => nofun) fun id => nofun
  · intro t ht
    rcases within_lone ht with ht | ht <;> cases ht
    decide

/-! ## A document with many spellings -/

/-- What is kept of a visit; the host may be left out. -/
def visit : Shape := record "Visit" [⟨"at", instant, none⟩, ⟨"code", bytes, none⟩,
  ⟨"counts", map str int, none⟩, ⟨"host", reference "Person", some (.ref ⟨"Person", 0, 1⟩)⟩,
  ⟨"tags", set str, none⟩]

theorem part_visit {t : Shape} (h : Part t visit) :
    t ∈ [visit, instant, bytes, map str int, str, int, reference "Person", set str] := by
  cases h with
  | self => exact List.mem_cons_self
  | member hm h =>
    simp only [List.mem_cons, List.not_mem_nil, or_false] at hm
    rcases hm with rfl | rfl | rfl | rfl | rfl
    case inl | inr.inl | inr.inr.inr.inl =>
      cases h
      simp
    case inr.inr.inl =>
      cases h with
      | self => simp
      | key h | value h =>
        cases h
        simp
    case inr.inr.inr.inr =>
      cases h with
      | self => simp
      | set h =>
        cases h
        simp

theorem default_visit {name : String} {declared : List (Member Shape)}
    (hp : Part (record name declared) visit) {d : Member Shape} (hd : d ∈ declared) {v : Value}
    (hv : d.default = some v) : d.shape = reference "Person" ∧ v = .ref ⟨"Person", 0, 1⟩ := by
  obtain ⟨rfl, rfl⟩ : name = "Visit" ∧ declared = _ := by simpa [visit] using part_visit hp
  simp only [List.mem_cons, List.not_mem_nil, or_false] at hd
  rcases hd with rfl | rfl | rfl | rfl | rfl <;> cases hv
  exact ⟨rfl, rfl⟩

theorem proper_visit : visit.Proper := by
  intro name declared hp
  refine ⟨?_, fun d hd v hv => ?_⟩
  · obtain ⟨rfl, rfl⟩ : name = "Visit" ∧ declared = _ := by simpa [visit] using part_visit hp
    decide
  · obtain ⟨hshape, rfl⟩ := default_visit hp hd hv
    exact hshape ▸ .reference ⟨"Person", 0, 1⟩

/-- Noon of the last day of February 2024. -/
def noon : Instant := { (default : Instant) with seconds := 1709208000 }

def facts : List (String × Value) := [("at", .instant noon), ("code", .bytes ⟨#[0xab]⟩),
  ("counts", .map [(.str "a", .int 1), (.str "b", .int 2)]), ("host", .ref ⟨"Person", 0, 1⟩),
  ("tags", .set [.str "y", .str "z"])]

def spelling : Json := .obj [("at", .str "2024-02-29T14:00:00+02:00"), ("code", .str "AB"),
  ("counts", .arr [.arr [.str "b", .int 2], .arr [.str "a", .int 1]]), ("extra", .null),
  ("tags", .arr [.str "z", .str "y", .str "z"])]

/-- Two hours ahead of UTC, digits in upper case, pairs in any order, a member that nobody asked
for and none for the host, and a tag that comes twice are all read. -/
theorem reads_spelling : Reads visit spelling (.record facts) := by
  have hat : Instant.ofText? "2024-02-29T14:00:00+02:00" = some noon := by decide +kernel
  have hread : Reads instant (.str "2024-02-29T14:00:00+02:00") (.instant noon) := fun _ =>
    bind_eq_ok.2 ⟨_, rfl, instantOfText_eq_ok.2 ⟨noon, hat, rfl⟩⟩
  exact @reads_record _ _ _ facts (.cons ⟨rfl, hread⟩ (.cons ⟨rfl, fun _ => rfl⟩
    (.cons ⟨rfl, fun _ => rfl⟩ (.cons ⟨rfl, rfl⟩ (.cons ⟨rfl, fun _ => rfl⟩ .nil)))))

theorem wellFormed_spelling : spelling.WellFormed := by
  refine .obj fun m hm => ?_
  simp only [List.mem_cons, List.not_mem_nil, or_false] at hm
  rcases hm with rfl | rfl | rfl | rfl | rfl
  · exact .str _
  · exact .str _
  · refine .arr fun pair hpair => ?_
    simp only [List.mem_cons, List.not_mem_nil, or_false] at hpair
    rcases hpair with rfl | rfl <;>
      exact .arr (List.forall_mem_cons.2 ⟨.str _, List.forall_mem_singleton.2 (.int rfl)⟩)
  · exact .null
  · refine .arr fun tag htag => ?_
    simp only [List.mem_cons, List.not_mem_nil, or_false] at htag
    rcases htag with rfl | rfl | rfl <;> exact .str _

theorem eq_noon_of_within {t : Instant} (h : Value.Within (.instant t) (.record facts)) :
    t = noon := by
  cases h with
  | member hm h =>
    simp only [facts, List.mem_cons, List.not_mem_nil, or_false] at hm
    rcases hm with rfl | rfl | rfl | rfl | rfl
    case inl =>
      cases h
      rfl
    case inr.inl | inr.inr.inr.inl => cases h
    case inr.inr.inl =>
      cases h with
      | key he h | value he h =>
        simp only [List.mem_cons, List.not_mem_nil, or_false] at he
        rcases he with rfl | rfl <;> cases h
    case inr.inr.inr.inr =>
      cases h with
      | set hv h =>
        simp only [List.mem_cons, List.not_mem_nil, or_false] at hv
        rcases hv with rfl | rfl <;> cases h

theorem read_write_read_visit :
    read "" visit spelling = .ok (.record facts) ∧
      ∃ j, write "" visit (.record facts) = .ok j ∧ read "" visit j = .ok (.record facts) ∧
        (Value.record facts).same (.record facts) = true := by
  refine ⟨reads_spelling "", read_write_read proper_visit ?_ ?_ wellFormed_spelling
    (reads_spelling "") fun t ht => ?_⟩
  · intro alternatives hp
    simpa [visit] using part_visit hp
  · intro name declared hp d hd v hv x hx
    obtain ⟨_, rfl⟩ := default_visit hp hd hv
    cases hx
    exact rfl
  · rw [eq_noon_of_within ht]
    decide

end Shape
end ObjectSpace
