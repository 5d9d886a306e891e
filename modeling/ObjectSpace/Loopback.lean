import ObjectSpace.Dispatch

/-!
# Loopback

A transport whose far side is a handler in the same place. It can be made before its handler is
there, and is bound to one handler for good.
-/

namespace ObjectSpace

structure Loopback where
  handler : Option Handler

namespace Loopback

variable {σ : Type}

def unbound : Loopback := ⟨none⟩

/-- Whether the handler was taken; only the first one is. -/
def bind (l : Loopback) (h : Handler) : Bool × Loopback :=
  match l.handler with
  | some _ => (false, l)
  | none => (true, ⟨some h⟩)

/-- A loopback without a handler is closed. -/
def transport [Store σ] (l : Loopback) : Transport σ := fun target e =>
  match l.handler with
  | some h => ((h.handle target e).mapError nofun) >>= fun r => pure (.reply r)
  | none => .fail .closed

end Loopback
end ObjectSpace
