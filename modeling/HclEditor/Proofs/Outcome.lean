import Mathlib

/-!
# Outcomes

A computation that may fail succeeds exactly if each of its steps does.
-/

namespace HclEditor.Except

variable {ε ε' α β : Type}

theorem bind_eq_ok {x : Except ε α} {f : α → Except ε β} {b : β} :
    (x >>= f) = .ok b ↔ ∃ a, x = .ok a ∧ f a = .ok b := by
  cases x <;> simp [bind, Except.bind]

theorem map_eq_ok {x : Except ε α} {f : α → β} {b : β} :
    x.map f = .ok b ↔ ∃ a, x = .ok a ∧ f a = b := by
  cases x <;> simp [Except.map]

theorem map_eq_error {x : Except ε α} {f : α → β} {e : ε} :
    x.map f = .error e ↔ x = .error e := by
  cases x <;> simp [Except.map]

theorem mapError_eq_ok {x : Except ε α} {f : ε → ε'} {a : α} :
    x.mapError f = .ok a ↔ x = .ok a := by
  cases x <;> simp [Except.mapError]

theorem exists_of_isOk {x : Except ε α} (hok : x.isOk = true) : ∃ a, x = .ok a := by
  cases x with
  | error error => cases hok
  | ok a => exact ⟨a, rfl⟩

theorem exists_of_map {x : Except ε α} {p : α → Bool} (hmap : x.map p = .ok true) :
    ∃ a, x = .ok a ∧ p a = true := by
  cases x with
  | error error => cases hmap
  | ok a => exact ⟨a, rfl, Except.ok.inj hmap⟩

end HclEditor.Except
