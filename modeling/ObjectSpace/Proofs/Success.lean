import Mathlib.Data.List.Forall2
import ObjectSpace.Value.Path

/-!
# Computations that succeed

A sequence of steps succeeds exactly if each step does, and a walk over a list exactly if it does at
every item. Walks tell their items the positions, which only matter to what is said about a failure,
so the relation between the items and what comes out of them leaves the positions open.
-/

namespace ObjectSpace

namespace Success

variable {ε ε' : Type u} {α β : Type v}

theorem bind_eq_ok {x : Except ε α} {f : α → Except ε β} {b : β} :
    x >>= f = .ok b ↔ ∃ a, x = .ok a ∧ f a = .ok b := by
  cases x with
  | error e => simp [bind, Except.bind]
  | ok a => simp [bind, Except.bind]

/-- A sequence of steps fails at its first step, or behind it. -/
theorem bind_eq_error {x : Except ε α} {f : α → Except ε β} {e : ε} :
    x >>= f = .error e ↔ x = .error e ∨ ∃ a, x = .ok a ∧ f a = .error e := by
  cases x with
  | error e' => simp [bind, Except.bind]
  | ok a => simp [bind, Except.bind]

theorem mapError_eq_error {x : Except ε α} {f : ε → ε'} {e : ε'} :
    x.mapError f = .error e ↔ ∃ e', x = .error e' ∧ f e' = e := by
  cases x with
  | error e' => simp [Except.mapError]
  | ok a => simp [Except.mapError]

theorem map_eq_ok {x : Except ε α} {f : α → β} {b : β} :
    x.map f = .ok b ↔ ∃ a, x = .ok a ∧ f a = b := by
  cases x with
  | error e => simp [Except.map]
  | ok a => simp [Except.map]

theorem mapError_eq_ok {x : Except ε α} {f : ε → ε'} {a : α} :
    x.mapError f = .ok a ↔ x = .ok a := by
  cases x with
  | error e => simp [Except.mapError]
  | ok a => simp [Except.mapError]

theorem pair_eq_ok {x : Except ε α} {y : α → Except ε β} {r : α × β} :
    (x >>= fun a => y a >>= fun b => pure (a, b)) = .ok r ↔ x = .ok r.1 ∧ y r.1 = .ok r.2 := by
  obtain ⟨a, b⟩ := r
  rw [bind_eq_ok]
  constructor
  · rintro ⟨a', ha, h⟩
    obtain ⟨b', hb, h⟩ := bind_eq_ok.1 h
    cases h
    exact ⟨ha, hb⟩
  · rintro ⟨ha, hb⟩
    exact ⟨a, ha, bind_eq_ok.2 ⟨b, hb, rfl⟩⟩

theorem mapM_nil {α : Type u} {β : Type v} (f : α → Except ε β) : [].mapM f = .ok [] := rfl

/-- A head and the rest behind it, each with what it takes. -/
theorem cons_eq_ok {x : Except ε β} {y : Except ε (List β)} {bs : List β} :
    (x >>= fun b => y >>= fun bs => pure (b :: bs)) = .ok bs ↔
      ∃ b bs', x = .ok b ∧ y = .ok bs' ∧ bs = b :: bs' := by
  rw [bind_eq_ok]
  constructor
  · rintro ⟨b, hb, h⟩
    obtain ⟨bs', hbs, h⟩ := bind_eq_ok.1 h
    cases h
    exact ⟨b, bs', hb, hbs, rfl⟩
  · rintro ⟨b, bs', hb, hbs, rfl⟩
    exact ⟨b, hb, bind_eq_ok.2 ⟨bs', hbs, rfl⟩⟩

theorem mapM_cons_eq_ok {α : Type u} {β : Type v} {f : α → Except ε β} {a : α} {as : List α}
    {bs : List β} : (a :: as).mapM f = .ok bs ↔
      ∃ b bs', f a = .ok b ∧ as.mapM f = .ok bs' ∧ bs = b :: bs' := by
  rw [List.mapM_cons]
  exact cons_eq_ok

theorem mapM_eq_ok {α : Type u} {β : Type v} {f : α → Except ε β} {as : List α} {bs : List β} :
    as.mapM f = .ok bs ↔ List.Forall₂ (fun a b => f a = .ok b) as bs := by
  induction as generalizing bs with
  | nil =>
    rw [mapM_nil, List.forall₂_nil_left_iff]
    simp [eq_comm]
  | cons a as ih =>
    rw [mapM_cons_eq_ok, List.forall₂_cons_left_iff]
    constructor
    · rintro ⟨b, bs', hb, hbs, rfl⟩
      exact ⟨b, bs', hb, ih.1 hbs, rfl⟩
    · rintro ⟨b, bs', hb, hbs, rfl⟩
      exact ⟨b, bs', hb, ih.2 hbs, rfl⟩

/-! Computations that differ only in how they tell their failures. -/

theorem map_eq_mapError {x : Except ε α} {x' : Except ε' α} {g : ε → ε'} (h : x' = x.mapError g)
    (f : α → β) : x'.map f = (x.map f).mapError g := by
  rw [h]
  cases x <;> rfl

theorem bind_eq_mapError {x : Except ε α} {x' : Except ε' α} {g : ε → ε'} {f : α → Except ε β}
    {f' : α → Except ε' β} (h : x' = x.mapError g) (hf : ∀ a, f' a = (f a).mapError g) :
    x' >>= f' = (x >>= f).mapError g := by
  rw [h]
  cases x with
  | error e => rfl
  | ok a => exact hf a

theorem mapM_eq_mapError {α α' : Type u} {β : Type v} {f : α → Except ε β}
    {f' : α' → Except ε' β} {g : ε → ε'} {as : List α} {as' : List α'}
    (h : List.Forall₂ (fun a' a => f' a' = (f a).mapError g) as' as) :
    as'.mapM f' = (as.mapM f).mapError g := by
  induction h with
  | nil => rfl
  | cons ha _ ih =>
    rw [List.mapM_cons, List.mapM_cons]
    exact bind_eq_mapError ha fun b => bind_eq_mapError ih fun bs => rfl

end Success

open Success

variable {ε : Type u} {α β : Type v}

theorem eachAt_cons_eq_ok {f : Nat → α → Except ε β} {i : Nat} {a : α} {as : List α} {bs : List β} :
    eachAt f i (a :: as) = .ok bs ↔
      ∃ b bs', f i a = .ok b ∧ eachAt f (i + 1) as = .ok bs' ∧ bs = b :: bs' := cons_eq_ok

/-- Two walks whose steps differ only in how they tell their failures. -/
theorem eachAt_eq_mapError {ε' : Type u} {f : Nat → α → Except ε β} {f' : Nat → α → Except ε' β}
    {g : ε → ε'} {as : List α} (h : ∀ a ∈ as, ∀ i, f' i a = (f i a).mapError g) (i : Nat) :
    eachAt f' i as = (eachAt f i as).mapError g := by
  induction as generalizing i with
  | nil => rfl
  | cons a as ih =>
    obtain ⟨ha, has⟩ := List.forall_mem_cons.1 h
    exact bind_eq_mapError (ha i) fun b => bind_eq_mapError (ih has (i + 1)) fun bs => rfl

theorem forall₂_of_eachAt {f : Nat → α → Except ε β} {i : Nat} {as : List α} {bs : List β}
    (h : eachAt f i as = .ok bs) : List.Forall₂ (fun a b => ∃ k, f k a = .ok b) as bs := by
  induction as generalizing i bs with
  | nil =>
    cases h
    exact .nil
  | cons a as ih =>
    obtain ⟨b, bs', hb, hbs, rfl⟩ := eachAt_cons_eq_ok.1 h
    exact .cons ⟨i, hb⟩ (ih hbs)

theorem exists_of_mem_right {α β : Type*} {R : α → β → Prop} {as : List α} {bs : List β}
    (h : List.Forall₂ R as bs) {b : β} (hb : b ∈ bs) : ∃ a ∈ as, R a b := by
  induction h with
  | nil => cases hb
  | cons hab _ ih =>
    rcases List.mem_cons.1 hb with rfl | hb
    · exact ⟨_, List.mem_cons_self, hab⟩
    · obtain ⟨a, ha, hr⟩ := ih hb
      exact ⟨a, List.mem_cons_of_mem _ ha, hr⟩

theorem exists_of_mem_left {α β : Type*} {R : α → β → Prop} {as : List α} {bs : List β}
    (h : List.Forall₂ R as bs) {a : α} (ha : a ∈ as) : ∃ b ∈ bs, R a b :=
  exists_of_mem_right h.flip ha

theorem forall₂_imp {α β : Type*} {R S : α → β → Prop} {as : List α} {bs : List β}
    (h : List.Forall₂ R as bs) (hi : ∀ a ∈ as, ∀ b, R a b → S a b) : List.Forall₂ S as bs := by
  induction h with
  | nil => exact .nil
  | cons hab _ ih =>
    obtain ⟨ha, has⟩ := List.forall_mem_cons.1 hi
    exact .cons (ha _ hab) (ih has)

theorem exists_getElem? {α β : Type*} {R : α → β → Prop} {as : List α} {bs : List β}
    (h : List.Forall₂ R as bs) {i : Nat} {a : α} (ha : as[i]? = some a) :
    ∃ b, bs[i]? = some b ∧ R a b := by
  induction h generalizing i with
  | nil => simp at ha
  | cons hab _ ih =>
    cases i with
    | zero =>
      cases ha
      exact ⟨_, rfl, hab⟩
    | succ i => exact ih ha

/-- What is found between the members of two lists, found for both lists at once. -/
theorem exists_forall₂ {α β γ : Type*} {R : α → β → Prop} {P : β → γ → Prop} {Q : γ → α → Prop}
    {as : List α} {bs : List β} (h : List.Forall₂ R as bs)
    (hc : ∀ a ∈ as, ∀ b ∈ bs, R a b → ∃ c, P b c ∧ Q c a) :
    ∃ cs, List.Forall₂ P bs cs ∧ List.Forall₂ Q cs as := by
  induction h with
  | nil => exact ⟨[], .nil, .nil⟩
  | cons hab _ ih =>
    obtain ⟨c, hp, hq⟩ := hc _ List.mem_cons_self _ List.mem_cons_self hab
    obtain ⟨cs, hps, hqs⟩ := ih fun a ha b hb =>
      hc a (List.mem_cons_of_mem _ ha) b (List.mem_cons_of_mem _ hb)
    exact ⟨c :: cs, .cons hp hps, .cons hq hqs⟩

theorem exists_forall₂_of_forall {α β : Type*} {R : α → β → Prop} {as : List α}
    (h : ∀ a ∈ as, ∃ b, R a b) : ∃ bs, List.Forall₂ R as bs := by
  induction as with
  | nil => exact ⟨[], .nil⟩
  | cons a as ih =>
    obtain ⟨⟨b, hb⟩, has⟩ := List.forall_mem_cons.1 h
    obtain ⟨bs, hbs⟩ := ih has
    exact ⟨b :: bs, .cons hb hbs⟩

/-- A walk whose step succeeds everywhere, whatever the position. -/
theorem eachAt_of_forall₂ {f : Nat → α → Except ε β} {as : List α} {bs : List β}
    (h : List.Forall₂ (fun a b => ∀ k, f k a = .ok b) as bs) (i : Nat) :
    eachAt f i as = .ok bs := by
  induction h generalizing i with
  | nil => rfl
  | cons hab _ ih => exact eachAt_cons_eq_ok.2 ⟨_, _, hab i, ih (i + 1), rfl⟩

end ObjectSpace
