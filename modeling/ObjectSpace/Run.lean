/-!
# Computations over a state

`Run σ ε α` works on a state `σ` and ends with a result, a failure, or a crash. Whatever the end,
the work done on the state before it stays. A crash passes through everything that does not look
for it.
-/

namespace ObjectSpace

inductive Outcome (ε α : Type) where
  | ok (a : α)
  | fail (e : ε)
  | crash

namespace Outcome

def mapError (f : ε → ε') : Outcome ε α → Outcome ε' α
  | ok a => ok a
  | fail e => fail (f e)
  | crash => crash

def ofExcept : Except ε α → Outcome ε α
  | .ok a => ok a
  | .error e => fail e

end Outcome

def Run (σ ε α : Type) : Type := σ → Outcome ε α × σ

namespace Run

variable {σ τ ε ε' α β : Type}

protected def pure (a : α) : Run σ ε α := fun s => (.ok a, s)

protected def bind (r : Run σ ε α) (f : α → Run σ ε β) : Run σ ε β := fun s =>
  match r s with
  | (.ok a, s) => f a s
  | (.fail e, s) => (.fail e, s)
  | (.crash, s) => (.crash, s)

instance : Monad (Run σ ε) where
  pure := Run.pure
  bind := Run.bind

def fail (e : ε) : Run σ ε α := fun s => (.fail e, s)

def crash : Run σ ε α := fun s => (.crash, s)

def getState : Run σ ε σ := fun s => (.ok s, s)

def setState (s : σ) : Run σ ε Unit := fun _ => (.ok (), s)

def modifyState (f : σ → σ) : Run σ ε Unit := fun s => (.ok (), f s)

def mapError (f : ε → ε') (r : Run σ ε α) : Run σ ε' α := fun s =>
  let (o, s) := r s
  (o.mapError f, s)

/-- The way a computation ends, as a result. -/
def attempt (r : Run σ ε α) : Run σ ε' (Outcome ε α) := fun s =>
  let (o, s) := r s
  (.ok o, s)

def ofOutcome (o : Outcome ε α) : Run σ ε α := fun s => (o, s)

def ofExcept (x : Except ε α) : Run σ ε α := ofOutcome (.ofExcept x)

/-- A computation on one part of the state. -/
def onFirst (r : Run σ ε α) : Run (σ × τ) ε α := fun (s, t) =>
  let (o, s) := r s
  (o, (s, t))

def onSecond (r : Run τ ε α) : Run (σ × τ) ε α := fun (s, t) =>
  let (o, t) := r t
  (o, (s, t))

/-- A change of the state that leaves it as it was where it fails. -/
def update (f : σ → Except ε (α × σ)) : Run σ ε α := fun s =>
  match f s with
  | .ok (a, s) => (.ok a, s)
  | .error e => (.fail e, s)

@[simp] theorem pure_apply (a : α) (s : σ) : (pure a : Run σ ε α) s = (.ok a, s) := rfl

theorem bind_apply (r : Run σ ε α) (f : α → Run σ ε β) (s : σ) :
    (r >>= f) s = match r s with
      | (.ok a, s) => f a s
      | (.fail e, s) => (.fail e, s)
      | (.crash, s) => (.crash, s) := rfl

instance : LawfulMonad (Run σ ε) :=
  LawfulMonad.mk' (Run σ ε)
    (fun r => by
      funext s
      show Run.bind r _ s = r s
      unfold Run.bind
      split <;> simp_all [Run.pure])
    (fun a f => rfl)
    (fun r f g => by
      funext s
      simp only [bind_apply]
      cases h : r s with
      | mk o s' => cases o <;> rfl)

end Run
end ObjectSpace
