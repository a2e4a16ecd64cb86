import Mathlib

namespace rust

variable {ε ε' α β : Type}

/-- `if bad { return Err(error); }`. -/
def reject_if (bad : Prop) [Decidable bad] (error : ε) : Except ε Unit :=
  if bad then .error error else .ok ()

/-- `Option::ok_or`. -/
def ok_or (x : Option α) (error : ε) : Except ε α :=
  match x with
  | some a => .ok a
  | none => .error error

@[simp] theorem bind_eq_ok_iff {x : Except ε α} {f : α → Except ε β} {b : β} :
    (x >>= f) = .ok b ↔ ∃ a, x = .ok a ∧ f a = .ok b := by
  cases x <;> simp [bind, Except.bind]

@[simp] theorem reject_if_eq_ok_iff {bad : Prop} [Decidable bad] {error : ε} {u : Unit} :
    reject_if bad error = .ok u ↔ ¬ bad := by
  unfold reject_if
  split <;> simp_all

@[simp] theorem ok_or_eq_ok_iff {x : Option α} {error : ε} {a : α} :
    ok_or x error = .ok a ↔ x = some a := by
  cases x <;> simp [ok_or]

@[simp] theorem mapError_eq_ok_iff {x : Except ε α} {f : ε → ε'} {a : α} :
    x.mapError f = .ok a ↔ x = .ok a := by
  cases x <;> simp [Except.mapError]

theorem isOk_unit_iff {x : Except ε Unit} : x.isOk = true ↔ x = .ok () := by
  cases x <;> simp [Except.isOk, Except.toBool]

@[simp] theorem map_eq_ok_iff {x : Except ε α} {f : α → β} {b : β} :
    x.map f = .ok b ↔ ∃ a, x = .ok a ∧ f a = b := by
  cases x <;> simp [Except.map]

/-- A result is an error exactly when it is no success. -/
theorem isOk_iff_exists {x : Except ε α} : x.isOk = true ↔ ∃ a, x = .ok a := by
  cases x <;> simp [Except.isOk, Except.toBool]

@[simp] theorem pure_eq_ok_iff {a b : α} : (pure a : Except ε α) = .ok b ↔ a = b := by
  simp [pure, Except.pure]

@[simp] theorem reject_if_of_not {bad : Prop} [Decidable bad] {error : ε} (h : ¬ bad) :
    reject_if bad error = .ok () := if_neg h

@[simp] theorem ok_bind (a : α) (f : α → Except ε β) : (Except.ok a >>= f) = f a := rfl

@[simp] theorem error_bind (e : ε) (f : α → Except ε β) : (Except.error e >>= f) = Except.error e := rfl

end rust
