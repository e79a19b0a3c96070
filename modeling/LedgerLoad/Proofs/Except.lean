/-! # Results of computations that may fail

What a computation ends in, if it ends well, comes of what its parts ended in. -/

namespace LedgerLoad.Except

variable {ε ε' α β : Type}

theorem map_eq_ok {f : α → β} {x : Except ε α} {b : β} (h : x.map f = .ok b) :
    ∃ a, x = .ok a ∧ b = f a := by
  cases x with
  | error => cases h
  | ok a => exact ⟨a, rfl, (Except.ok.inj h).symm⟩

theorem mapError_eq_ok {f : ε → ε'} {x : Except ε α} {a : α} (h : x.mapError f = .ok a) :
    x = .ok a := by
  cases x with
  | error => cases h
  | ok => rw [Except.ok.inj h]

theorem mapError_eq_error {f : ε → ε'} {x : Except ε α} {fault' : ε'} :
    x.mapError f = .error fault' ↔ ∃ fault, x = .error fault ∧ f fault = fault' := by
  constructor
  · intro h
    cases x with
    | error fault => exact ⟨fault, rfl, Except.error.inj h⟩
    | ok => cases h
  · intro ⟨fault, hx, hfault⟩
    rw [hx, ← hfault]
    rfl

theorem bind_eq_ok {f : α → Except ε β} {x : Except ε α} {b : β} (h : x >>= f = .ok b) :
    ∃ a, x = .ok a ∧ f a = .ok b := by
  cases x with
  | error => cases h
  | ok a => exact ⟨a, rfl, h⟩

end LedgerLoad.Except
