import Mathlib

namespace DeckDoc

theorem Except.map_eq_ok_iff {ε α β : Type} {f : α → β} {x : Except ε α} {b : β} :
    x.map f = .ok b ↔ ∃ a, x = .ok a ∧ f a = b := by
  cases x <;> simp [Except.map]

theorem Except.bind_eq_ok_iff {ε α β : Type} {f : α → Except ε β} {x : Except ε α} {b : β} :
    (x >>= f) = .ok b ↔ ∃ a, x = .ok a ∧ f a = .ok b := by
  cases x <;> simp [bind, Except.bind]

theorem Except.seq_eq_ok_iff {ε β : Type} {x : Except ε Unit} {y : Except ε β} {b : β} :
    (x >>= fun _ => y) = .ok b ↔ x = .ok () ∧ y = .ok b := by
  cases x <;> simp [bind, Except.bind]

/-- What comes behind a check is reached when the check finds no fault. -/
theorem Except.ite_error_eq_ok_iff {ε β : Type} {c : Prop} [Decidable c] {e : ε}
    {x : Except ε β} {b : β} : (if c then .error e else x) = .ok b ↔ ¬ c ∧ x = .ok b := by
  by_cases hc : c <;> simp [hc]

theorem Except.toOption_eq_some_iff {ε α : Type} {x : Except ε α} {a : α} :
    x.toOption = some a ↔ x = .ok a := by
  cases x <;> simp [Except.toOption]

/-- An error that comes out is of some kind. -/
def FailsOnly {ε α : Type} (p : ε → Prop) (x : Except ε α) : Prop := ∀ e, x = .error e → p e

namespace FailsOnly

variable {ε δ α β : Type} {p : ε → Prop} {x : Except ε α}

theorem ok {a : α} : FailsOnly p (.ok a : Except ε α) := by
  intro e h
  cases h

theorem error {e : ε} (h : p e) : FailsOnly p (.error e : Except ε α) := by
  intro e' he
  exact Except.error.inj he ▸ h

theorem bind {f : α → Except ε β} (hx : FailsOnly p x) (hf : ∀ a, x = .ok a → FailsOnly p (f a)) :
    FailsOnly p (x >>= f) := by
  cases x with
  | error e => exact .error (hx e rfl)
  | ok a => exact hf a rfl

theorem map {f : α → β} (hx : FailsOnly p x) : FailsOnly p (x.map f) := by
  cases x with
  | error e => exact .error (hx e rfl)
  | ok a => exact .ok

theorem mapError {q : δ → Prop} {g : ε → δ} (hx : FailsOnly p x) (hg : ∀ e, p e → q (g e)) :
    FailsOnly q (x.mapError g) := by
  cases x with
  | error e => exact .error (hg e (hx e rfl))
  | ok a => exact .ok

end FailsOnly

end DeckDoc
