import Mathlib.Tactic.MkIffOfInductiveProp
import ObjectSpace.Proofs.Codec.Arguments

/-!
# Arguments and the parameters they are for

A payload carries arguments by position and by name. It is accepted exactly if each of them is for a
parameter of its own and reads for it, and no parameter that needs an argument is left without one.
Then every parameter has what its argument reads as, or else its default, or null.
-/

namespace ObjectSpace

open Success

namespace Arguments

/-! ## Which argument is for which parameter -/

/-- An argument is known by its position, or by its name. -/
inductive Source where
  | position (i : Nat)
  | name (n : String)

/-- The argument is there, and this is its document. -/
inductive Supplies (items : List Json) (named : List (String × Json)) : Source → Json → Prop
  | position {i : Nat} {j : Json} (h : items[i]? = some j) : Supplies items named (.position i) j
  | name {n : String} {j : Json} (h : (n, j) ∈ named) : Supplies items named (.name n) j

/-- The argument is for the parameter `p` at position `i`. -/
def Source.IsFor (i : Nat) (p : Param) : Source → Prop
  | .position k => k = i
  | .name n => n = p.name

/-- No argument is for the parameter. -/
def Unsupplied (items : List Json) (named : List (String × Json)) (i : Nat) (p : Param) : Prop :=
  ∀ s j, s.IsFor i p → ¬Supplies items named s j

/-- The arguments can be given to the parameters. -/
structure Fits (params : List Param) (items : List Json) (named : List (String × Json)) :
    Prop where
  length : items.length ≤ params.length
  /-- Each name is that of a parameter behind those that have an argument by position. -/
  names : ∀ m ∈ named, ∃ i p, params[i]? = some p ∧ p.name = m.1 ∧ items.length ≤ i
  readable : ∀ i p s j, params[i]? = some p → s.IsFor i p → Supplies items named s j →
    ∃ v, p.shape.read p.name j = .ok v
  dispensable : ∀ i p, params[i]? = some p → Unsupplied items named i p →
    p.default.isSome = true ∨ p.shape.isNullable = true

/-- The parameters have the values `vs`, which are those of the arguments and nothing else. -/
structure Distributes (params : List Param) (items : List Json) (named : List (String × Json))
    (vs : List Value) : Prop where
  length : vs.length = params.length
  /-- Each argument goes to exactly one parameter. -/
  target : ∀ s j, Supplies items named s j → ∃! i, ∃ p v, params[i]? = some p ∧ s.IsFor i p ∧
    vs[i]? = some v ∧ p.shape.read p.name j = .ok v
  /-- No parameter has two arguments. -/
  alone : ∀ i p s s' j j', params[i]? = some p → s.IsFor i p → s'.IsFor i p →
    Supplies items named s j → Supplies items named s' j' → s = s' ∧ j = j'
  rest : ∀ i p, params[i]? = some p → Unsupplied items named i p →
    vs[i]? = some (p.default.getD .null)

section

variable {params : List Param} {items : List Json} {named : List (String × Json)} {i : Nat}
  {p : Param}

theorem supplies_iff {j : Json} (hk : (named.map Prod.fst).Nodup) :
    (∃ s, s.IsFor i p ∧ Supplies items named s j) ↔
      items[i]? = some j ∨ Entries.lookup p.name named = some j := by
  rw [Entries.lookup_eq_some_iff hk]
  constructor
  · rintro ⟨_, hs, hi | hn⟩
    · exact .inl (hs ▸ hi)
    · exact .inr (hs ▸ hn)
  · rintro (h | h)
    · exact ⟨.position i, rfl, .position h⟩
    · exact ⟨.name p.name, rfl, .name h⟩

theorem unsupplied_iff (hk : (named.map Prod.fst).Nodup) : Unsupplied items named i p ↔
    items[i]? = none ∧ Entries.lookup p.name named = none := by
  have h : Unsupplied items named i p ↔ ¬∃ j s, s.IsFor i p ∧ Supplies items named s j := by
    unfold Unsupplied
    grind
  simp only [h, supplies_iff hk, Option.eq_none_iff_forall_ne_some, not_exists, not_or,
    forall_and]

theorem ifAbsent?_eq_some {v : Value} : p.ifAbsent? = some v ↔
    (p.default.isSome = true ∨ p.shape.isNullable = true) ∧ v = p.default.getD .null := by
  unfold Member.ifAbsent?
  cases p.default with
  | some d => simp [@eq_comm _ v]
  | none => cases p.shape.isNullable <;> simp [@eq_comm _ v]

/-- The parameter `p` at position `i` has its only argument, or does without. -/
@[mk_iff]
structure Takes (items : List Json) (named : List (String × Json)) (i : Nat) (p : Param)
    (v : Value) : Prop where
  alone : items[i]? = none ∨ Entries.lookup p.name named = none
  reads : ∀ s j, s.IsFor i p → Supplies items named s j → p.shape.read p.name j = .ok v
  absent : Unsupplied items named i p → p.ifAbsent? = some v

theorem readOne_eq_ok {v : Value} (hk : (named.map Prod.fst).Nodup) :
    readOne p items[i]? (Entries.lookup p.name named) = .ok v ↔ Takes items named i p v := by
  have hreads : (∀ s j, s.IsFor i p → Supplies items named s j → p.shape.read p.name j = .ok v) ↔
      ∀ j, items[i]? = some j ∨ Entries.lookup p.name named = some j →
        p.shape.read p.name j = .ok v := by
    simp only [← supplies_iff hk]
    grind
  rw [takes_iff, hreads, unsupplied_iff hk]
  cases items[i]? <;> cases Entries.lookup p.name named <;>
    simp [readOne, mapError_eq_ok, Param.absent_eq_ok]

end

/-- Each value that is read is that of the parameter at its position. -/
theorem readOne_of_readAll {named : List (String × Json)} {params : List Param}
    {items : List Json} {vs : List Value} (h : readAll named params items = .ok vs) :
    vs.length = params.length ∧ ∀ (i : Nat) p, params[i]? = some p → ∃ v, vs[i]? = some v ∧
      readOne p items[i]? (Entries.lookup p.name named) = .ok v := by
  induction params generalizing items vs with
  | nil =>
    cases h
    exact ⟨rfl, fun i p hp => by simp at hp⟩
  | cons q ps ih =>
    obtain ⟨v, hv, h⟩ := bind_eq_ok.1 h
    obtain ⟨vs', hvs, h⟩ := bind_eq_ok.1 h
    cases h
    obtain ⟨hlength, hall⟩ := ih hvs
    refine ⟨congrArg (· + 1) hlength, fun i p hp => ?_⟩
    cases i with
    | zero =>
      cases hp
      exact ⟨v, rfl, List.head?_eq_getElem? ▸ hv⟩
    | succ i =>
      obtain ⟨w, hw, hread⟩ := hall i p hp
      exact ⟨w, hw, List.getElem?_tail ▸ hread⟩

theorem takes_of_allot {params : List Param} {items : List Json} {named : List (String × Json)}
    (hk : (named.map Prod.fst).Nodup) {vs : List Value} (h : allot params items named = .ok vs)
    {i : Nat} {p : Param} (hp : params[i]? = some p) :
    ∃ v, vs[i]? = some v ∧ Takes items named i p v := by
  obtain ⟨v, hv, hread⟩ := (readOne_of_readAll (allot_eq_ok.1 h).2.2).2 i p hp
  exact ⟨v, hv, (readOne_eq_ok hk).1 hread⟩

/-- The only argument for a parameter. -/
theorem eq_of_supplies {items : List Json} {named : List (String × Json)} {i : Nat} {p : Param}
    {s s' : Source} {j j' : Json} (hk : (named.map Prod.fst).Nodup)
    (halone : items[i]? = none ∨ Entries.lookup p.name named = none) (hs : s.IsFor i p)
    (hs' : s'.IsFor i p) (h : Supplies items named s j) (h' : Supplies items named s' j') :
    s = s' ∧ j = j' := by
  cases h with
  | position hi =>
    obtain rfl := hs
    cases h' with
    | position hi' =>
      obtain rfl := hs'
      exact ⟨rfl, Option.some.inj (hi.symm.trans hi')⟩
    | name hm' =>
      obtain rfl := hs'
      rw [hi, Entries.lookup_of_mem hk hm'] at halone
      simp at halone
  | name hm =>
    obtain rfl := hs
    have hl := Entries.lookup_of_mem hk hm
    cases h' with
    | position hi' =>
      obtain rfl := hs'
      rw [hi', hl] at halone
      simp at halone
    | name hm' =>
      obtain rfl := hs'
      exact ⟨rfl, Option.some.inj (hl.symm.trans (Entries.lookup_of_mem hk hm'))⟩

/-- Each argument is for a parameter. -/
theorem Fits.exists_isFor {params : List Param} {items : List Json}
    {named : List (String × Json)} (h : Fits params items named) {s : Source} {j : Json}
    (hs : Supplies items named s j) : ∃ i p, params[i]? = some p ∧ s.IsFor i p := by
  cases hs with
  | @position k _ hi =>
    have hlt : k < items.length := (List.getElem?_eq_some_iff.1 hi).1
    exact ⟨k, _, List.getElem?_eq_getElem (hlt.trans_le h.length), rfl⟩
  | name hm =>
    obtain ⟨i, p, hp, hname, _⟩ := h.names _ hm
    exact ⟨i, p, hp, hname.symm⟩

section

variable {params : List Param} {items : List Json} {named : List (String × Json)}
  (hn : (params.map Member.name).Nodup) (hk : (named.map Prod.fst).Nodup)

include hn

theorem Source.isFor_unique {s : Source} {i k : Nat} {p q : Param} (hp : params[i]? = some p)
    (hq : params[k]? = some q) (hi : s.IsFor i p) (hk : s.IsFor k q) : k = i := by
  cases s with
  | position m => exact hk.symm.trans hi
  | name n => exact index_eq hn hp hq (hk.symm.trans hi)

/-- A parameter that has an argument by position has none by name. -/
theorem Fits.lookup_eq_none (h : Fits params items named) {i : Nat} {p : Param} {j : Json}
    (hp : params[i]? = some p) (hi : items[i]? = some j) :
    Entries.lookup p.name named = none := by
  refine Entries.lookup_eq_none_of_forall fun m hm heq => ?_
  obtain ⟨k, q, hq, hname, hle⟩ := h.names m hm
  obtain rfl := index_eq hn hp hq (hname.trans (Std.LawfulEqCmp.eq_of_compare heq).symm)
  have hlt : k < items.length := (List.getElem?_eq_some_iff.1 hi).1
  omega

include hk

theorem Fits.exists_readOne (h : Fits params items named) {i : Nat} {p : Param}
    (hp : params[i]? = some p) :
    ∃ v, readOne p items[i]? (Entries.lookup p.name named) = .ok v := by
  have halone : items[i]? = none ∨ Entries.lookup p.name named = none := by
    cases hi : items[i]? with
    | none => exact .inl rfl
    | some j => exact .inr (h.lookup_eq_none hn hp hi)
  by_cases hidle : Unsupplied items named i p
  · refine ⟨p.default.getD .null, (readOne_eq_ok hk).2 ⟨halone, ?_, fun _ => ?_⟩⟩
    · exact fun s j hs hsup => absurd hsup (hidle s j hs)
    · exact ifAbsent?_eq_some.2 ⟨h.dispensable i p hp hidle, rfl⟩
  · obtain ⟨s, j, hs, hsup⟩ : ∃ s j, s.IsFor i p ∧ Supplies items named s j := by
      simpa [Unsupplied] using hidle
    obtain ⟨v, hv⟩ := h.readable i p s j hp hs hsup
    refine ⟨v, (readOne_eq_ok hk).2 ⟨halone, fun s' j' hs' hsup' => ?_, fun hidle' => ?_⟩⟩
    · rwa [← (eq_of_supplies hk halone hs hs' hsup hsup').2]
    · exact absurd hidle' hidle

theorem Fits.exists_allot (h : Fits params items named) :
    ∃ vs, allot params items named = .ok vs := by
  obtain ⟨vs, hvs, _⟩ := readAll_eq_ok (P := fun _ _ _ => True) fun i p hp => by
    obtain ⟨v, hv⟩ := h.exists_readOne hn hk hp
    exact ⟨v, hv, trivial⟩
  refine ⟨vs, allot_eq_ok.2 ⟨h.length, fun m hm => ?_, hvs⟩⟩
  obtain ⟨i, p, hp, hname, _⟩ := h.names m hm
  exact List.mem_map.2 ⟨p, List.mem_of_getElem? hp, hname⟩

omit hn in
theorem fits_of_allot {vs : List Value} (h : allot params items named = .ok vs) :
    Fits params items named := by
  obtain ⟨hlength, hnames, _⟩ := allot_eq_ok.1 h
  refine ⟨hlength, fun m hm => ?_, fun i p s j hp hs hsup => ?_, fun i p hp hidle => ?_⟩
  · obtain ⟨p, hmem, hname⟩ := List.mem_map.1 (hnames m hm)
    obtain ⟨i, hp⟩ := List.mem_iff_getElem?.1 hmem
    obtain ⟨v, _, htakes⟩ := takes_of_allot hk h hp
    have hl : Entries.lookup p.name named = some m.2 := by
      rw [hname]
      exact Entries.lookup_of_mem hk hm
    have hfree : items[i]? = none := by
      simpa [hl] using htakes.alone
    exact ⟨i, p, hp, hname, List.getElem?_eq_none_iff.1 hfree⟩
  · obtain ⟨v, _, htakes⟩ := takes_of_allot hk h hp
    exact ⟨v, htakes.reads s j hs hsup⟩
  · obtain ⟨v, _, htakes⟩ := takes_of_allot hk h hp
    exact (ifAbsent?_eq_some.1 (htakes.absent hidle)).1

theorem distributes_of_allot {vs : List Value} (h : allot params items named = .ok vs) :
    Distributes params items named vs := by
  have hfits := fits_of_allot hk h
  refine ⟨(readOne_of_readAll (allot_eq_ok.1 h).2.2).1, fun s j hsup => ?_,
    fun i p s s' j j' hp hs hs' hsup hsup' => ?_, fun i p hp hidle => ?_⟩
  · obtain ⟨i, p, hp, hs⟩ := hfits.exists_isFor hsup
    obtain ⟨v, hv, htakes⟩ := takes_of_allot hk h hp
    refine ⟨i, ⟨p, v, hp, hs, hv, htakes.reads s j hs hsup⟩, ?_⟩
    rintro k ⟨q, _, hq, hsk, _⟩
    exact Source.isFor_unique hn hp hq hs hsk
  · obtain ⟨v, _, htakes⟩ := takes_of_allot hk h hp
    exact eq_of_supplies hk htakes.alone hs hs' hsup hsup'
  · obtain ⟨v, hv, htakes⟩ := takes_of_allot hk h hp
    rw [hv, (ifAbsent?_eq_some.1 (htakes.absent hidle)).2]

end

/-- A call is accepted exactly if each of its arguments is for a parameter of its own and reads for
it, and no parameter is left that needs an argument. Then each argument goes to exactly one
parameter, and the parameters without one have their defaults, or null. -/
theorem decode_iff_fits {params : List Param} (hn : (params.map Member.name).Nodup)
    (bytes : ByteArray) :
    ((∃ vs, decode params bytes = .ok vs) ↔
      ∃ items named, Carries bytes items named ∧ Fits params items named) ∧
    ∀ vs items named, decode params bytes = .ok vs → Carries bytes items named →
      Distributes params items named vs := by
  refine ⟨⟨?_, ?_⟩, fun vs items named h hcarries => ?_⟩
  · rintro ⟨vs, h⟩
    obtain ⟨items, named, hcarries, h⟩ := decode_eq_ok.1 h
    exact ⟨items, named, hcarries, fits_of_allot hcarries.nodup h⟩
  · rintro ⟨items, named, hcarries, hfits⟩
    obtain ⟨vs, h⟩ := hfits.exists_allot hn hcarries.nodup
    exact ⟨vs, decode_eq_ok.2 ⟨items, named, hcarries, h⟩⟩
  · obtain ⟨items', named', hcarries', h⟩ := decode_eq_ok.1 h
    obtain ⟨rfl, rfl⟩ := hcarries.unique hcarries'
    exact distributes_of_allot hn hcarries.nodup h

/-! ## A call with a default -/

/-- Whom to greet, how many times, and what to say at the end, if anything. -/
def greeting : List Param :=
  [⟨"name", .str, none⟩, ⟨"times", .int, some (.int 1)⟩, ⟨"suffix", .optional .str, none⟩]

/-- One argument by position and one by name, in front of and behind a default. -/
theorem decode_greeting :
    let payload := (envelope [.str "ada"] [("suffix", .str "!")]).text.toUTF8
    let vs := [.str "ada", .int 1, .str "!"]
    decode greeting payload = .ok vs ∧
      (∃ items named, Carries payload items named ∧ Fits greeting items named) ∧
      Distributes greeting [.str "ada"] [("suffix", .str "!")] vs := by
  intro payload vs
  have hcarries : Carries payload [.str "ada"] [("suffix", .str "!")] :=
    carries_envelope (List.forall_mem_singleton.2 (.str _)) (List.forall_mem_singleton.2 (.str _))
      (by decide)
  have hdecode : decode greeting payload = .ok vs := decode_eq_ok.2 ⟨_, _, hcarries, rfl⟩
  have haccepted := decode_iff_fits (show (greeting.map Member.name).Nodup by decide) payload
  exact ⟨hdecode, haccepted.1.1 ⟨vs, hdecode⟩, haccepted.2 _ _ _ hdecode hcarries⟩

end Arguments
end ObjectSpace
