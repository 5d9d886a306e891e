import ObjectSpace.Run

/-!
# Ends of computations
-/

namespace ObjectSpace

def Outcome.isOk {ε α : Type} : Outcome ε α → Bool
  | .ok _ => true
  | _ => false

theorem Outcome.isOk_iff {ε α : Type} {o : Outcome ε α} : o.isOk = true ↔ ∃ a, o = .ok a := by
  cases o <;> simp [isOk]

theorem Run.map_apply {σ ε α β : Type} (g : α → β) (r : Run σ ε α) (s : σ) :
    (g <$> r) s = match r s with
      | (.ok a, s) => (.ok (g a), s)
      | (.fail e, s) => (.fail e, s)
      | (.crash, s) => (.crash, s) := by
  rw [map_eq_pure_bind, Run.bind_apply]
  rcases r s with ⟨o, s'⟩
  cases o <;> rfl

/-- What is looked up in the state goes first, and leaves the state as it is. -/
theorem Run.look_bind_apply {σ ε α β : Type} (look : σ → Except ε α) (r : α → Run σ ε β) (s : σ) :
    (getState >>= fun t => ofExcept (look t) >>= r) s = match look s with
      | .ok a => r a s
      | .error e => (.fail e, s) := by
  rw [bind_apply, getState]
  dsimp only
  rw [bind_apply]
  cases look s <;> rfl

end ObjectSpace
