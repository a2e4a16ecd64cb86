import Lys.Effect.Contract

namespace effect

variable {I : Interface} {ε ε' α β : Type} {who : I.Who} {x : Prog I ε α} {f : α → Prog I ε β}
  {choices : List I.Choice} {s : I.State}

/-- A run goes on where the run of the first part of a sequence ended. -/
def Ending.andThen (who : I.Who) (ending : Ending I ε α) (f : α → Prog I ε β) : Ending I ε β :=
  match ending.outcome with
  | none => ⟨none, ending.choices, ending.state⟩
  | some (.done a) => run who (f a) ending.choices ending.state
  | some (.failed e) => ⟨some (.failed e), ending.choices, ending.state⟩
  | some .panicked => ⟨some .panicked, ending.choices, ending.state⟩

theorem run_bind : run who (x >>= f) choices s = (run who x choices s).andThen who f := by
  induction x generalizing choices s with
  | ret a => simp [Ending.andThen]
  | fail e => simp [Ending.andThen]
  | panic => simp [Ending.andThen]
  | op o next ih =>
    cases choices with
    | nil => rfl
    | cons choice choices =>
      rw [Prog.op_bind, run, run]
      cases I.apply who o choice s with
      | none => rfl
      | some reply => exact ih reply.1

theorem exists_of_run_bind {out : Outcome ε β} (h : (run who (x >>= f) choices s).outcome = some out) :
    ∃ first, (run who x choices s).outcome = some first := by
  rw [run_bind, Ending.andThen] at h
  cases hfirst : (run who x choices s).outcome with
  | none =>
    rw [hfirst] at h
    cases h
  | some first => exact ⟨first, rfl⟩

theorem run_bind_of_done {a : α} (h : (run who x choices s).outcome = some (.done a)) :
    run who (x >>= f) choices s = run who (f a) (run who x choices s).choices (run who x choices s).state := by
  rw [run_bind, Ending.andThen, h]

theorem run_bind_of_failed {e : ε} (h : (run who x choices s).outcome = some (.failed e)) :
    run who (x >>= f) choices s = ⟨some (.failed e), (run who x choices s).choices, (run who x choices s).state⟩ := by
  rw [run_bind, Ending.andThen, h]

/-- An ending with another error for each. -/
def Ending.map_error (g : ε → ε') (ending : Ending I ε α) : Ending I ε' α :=
  ⟨ending.outcome.map (Outcome.map_error g), ending.choices, ending.state⟩

theorem run_map_error {g : ε → ε'} : run who (x.map_error g) choices s = (run who x choices s).map_error g := by
  induction x generalizing choices s with
  | ret a => simp [Prog.map_error, Ending.map_error, Outcome.map_error]
  | fail e => simp [Prog.map_error, Ending.map_error, Outcome.map_error]
  | panic => simp [Prog.map_error, Ending.map_error, Outcome.map_error]
  | op o next ih =>
    cases choices with
    | nil => rfl
    | cons choice choices =>
      rw [Prog.map_error, run, run]
      cases I.apply who o choice s with
      | none => rfl
      | some reply => exact ih reply.1

/-- An ending whose failure is a value. -/
def Ending.attempt (ending : Ending I ε α) : Ending I ε' (Except ε α) :=
  ⟨ending.outcome.map Outcome.attempt, ending.choices, ending.state⟩

theorem run_attempt : run who (x.attempt : Prog I ε' (Except ε α)) choices s = (run who x choices s).attempt := by
  induction x generalizing choices s with
  | ret a => simp [Prog.attempt, Ending.attempt, Outcome.attempt]
  | fail e => simp [Prog.attempt, Ending.attempt, Outcome.attempt]
  | panic => simp [Prog.attempt, Ending.attempt, Outcome.attempt]
  | op o next ih =>
    cases choices with
    | nil => rfl
    | cons choice choices =>
      rw [Prog.attempt, run, run]
      cases I.apply who o choice s with
      | none => rfl
      | some reply => exact ih reply.1

/-- Behind an attempt that was done, a sequence goes on. -/
theorem run_attempt_bind_of_done {g : Except ε α → Prog I ε' β} {a : α}
    (h : (run who x choices s).outcome = some (.done a)) :
    run who (x.attempt >>= g) choices s = run who (g (.ok a)) (run who x choices s).choices (run who x choices s).state := by
  rw [run_bind, run_attempt, Ending.attempt, h]
  rfl

/-- A sequence behind an attempt that only returns leaves the state that was attempted. -/
theorem state_run_attempt_bind {g : Except ε α → Prog I ε' β}
    (hret : ∀ r, (∀ a, r = .ok a → (run who x choices s).outcome = some (.done a)) →
      ∀ choices s, (run who (g r) choices s).state = s) :
    (run who (x.attempt >>= g) choices s).state = (run who x choices s).state := by
  rw [run_bind, run_attempt, Ending.attempt, Ending.andThen]
  cases hout : (run who x choices s).outcome with
  | none => rfl
  | some out =>
    cases out with
    | done a => exact hret (.ok a) (by rintro _ ⟨⟩; exact hout) _ _
    | failed e => exact hret (.error e) (by rintro _ ⟨⟩) _ _
    | panicked => rfl

section Meets

/-- Every operation that a run performs meets a condition with its choice, in its state. -/
def Meets (who : I.Who) (P : I.Op → I.Choice → I.State → Prop) : Prog I ε α → List I.Choice → I.State → Prop
  | .op o next, choice :: choices, s =>
    match I.apply who o choice s with
    | none => True
    | some (r, s') => P o choice s ∧ Meets who P (next r) choices s'
  | _, _, _ => True

variable {P : I.Op → I.Choice → I.State → Prop}

@[simp] theorem meets_ret {a : α} : Meets who P (.ret a : Prog I ε α) choices s := by cases choices <;> trivial

@[simp] theorem meets_fail {e : ε} : Meets who P (.fail e : Prog I ε α) choices s := by cases choices <;> trivial

@[simp] theorem meets_panic : Meets who P (.panic : Prog I ε α) choices s := by cases choices <;> trivial

/-- Every operation of a program is of a kind. -/
def Performs (kind : I.Op → Prop) : Prog I ε α → Prop
  | .op o next => kind o ∧ ∀ r, Performs kind (next r)
  | _ => True

theorem Performs.meets {kind : I.Op → Prop} (h : Performs kind x) (hkind : ∀ o, kind o → ∀ choice s, P o choice s) :
    Meets who P x choices s := by
  induction x generalizing choices s with
  | ret a => exact meets_ret
  | fail e => exact meets_fail
  | panic => exact meets_panic
  | op o next ih =>
    cases choices with
    | nil => trivial
    | cons choice choices =>
      rw [Meets]
      cases I.apply who o choice s with
      | none => trivial
      | some reply => exact ⟨hkind o h.1 choice s, ih reply.1 (h.2 reply.1)⟩

theorem meets_bind : Meets who P (x >>= f) choices s ↔ Meets who P x choices s ∧ ∀ a,
    (run who x choices s).outcome = some (.done a) →
      Meets who P (f a) (run who x choices s).choices (run who x choices s).state := by
  induction x generalizing choices s with
  | ret a => simp
  | fail e => simp
  | panic => simp
  | op o next ih =>
    cases choices with
    | nil => simp [Meets, run]
    | cons choice choices =>
      rw [Prog.op_bind, Meets, Meets, run]
      cases I.apply who o choice s with
      | none => simp
      | some reply => exact (and_congr_right fun _ => ih reply.1).trans and_assoc.symm

theorem meets_bind_of_done {a : α} (h : (run who x choices s).outcome = some (.done a)) :
    Meets who P (x >>= f) choices s ↔ Meets who P x choices s ∧
      Meets who P (f a) (run who x choices s).choices (run who x choices s).state := by
  rw [meets_bind, h]
  simp

theorem meets_bind_of_failed {e : ε} (h : (run who x choices s).outcome = some (.failed e)) :
    Meets who P (x >>= f) choices s ↔ Meets who P x choices s := by
  rw [meets_bind, h]
  simp

theorem meets_map_error {g : ε → ε'} : Meets who P (x.map_error g) choices s ↔ Meets who P x choices s := by
  induction x generalizing choices s with
  | ret a => simp [Prog.map_error]
  | fail e => simp [Prog.map_error]
  | panic => simp [Prog.map_error]
  | op o next ih =>
    cases choices with
    | nil => exact Iff.rfl
    | cons choice choices =>
      rw [Prog.map_error, Meets, Meets]
      cases I.apply who o choice s with
      | none => exact Iff.rfl
      | some reply => exact and_congr_right fun _ => ih reply.1

theorem meets_attempt : Meets who P (x.attempt : Prog I ε' (Except ε α)) choices s ↔ Meets who P x choices s := by
  induction x generalizing choices s with
  | ret a => simp [Prog.attempt]
  | fail e => simp [Prog.attempt]
  | panic => simp [Prog.attempt]
  | op o next ih =>
    cases choices with
    | nil => exact Iff.rfl
    | cons choice choices =>
      rw [Prog.attempt, Meets, Meets]
      cases I.apply who o choice s with
      | none => exact Iff.rfl
      | some reply => exact and_congr_right fun _ => ih reply.1

instance Meets.decidable [∀ o choice s, Decidable (P o choice s)] :
    (choices : List I.Choice) → (x : Prog I ε α) → (s : I.State) → Decidable (Meets who P x choices s)
  | _, .ret _, _ => isTrue meets_ret
  | _, .fail _, _ => isTrue meets_fail
  | _, .panic, _ => isTrue meets_panic
  | [], .op _ _, _ => isTrue trivial
  | choice :: choices, .op o next, s =>
    match h : I.apply who o choice s with
    | none => isTrue (by rw [Meets, h]; trivial)
    | some (r, s') =>
      have := Meets.decidable choices (next r) s'
      decidable_of_iff (P o choice s ∧ Meets who P (next r) choices s') (by rw [Meets, h])

end Meets

section Returns

/-- Every value that a program can return satisfies a condition. -/
def Returns (Q : α → Prop) : Prog I ε α → Prop
  | .ret a => Q a
  | .op _ next => ∀ r, Returns Q (next r)
  | _ => True

theorem Returns.bind_of_returns {Q : α → Prop} {Q' : β → Prop} (hx : Returns Q x) (hf : ∀ a, Q a → Returns Q' (f a)) :
    Returns Q' (x >>= f) := by
  induction x with
  | ret a => exact hf a hx
  | fail e => trivial
  | panic => trivial
  | op o next ih => exact fun r => ih r (hx r)

theorem returns_true (x : Prog I ε α) : Returns (fun _ => True) x := by
  induction x with
  | ret a => trivial
  | fail e => trivial
  | panic => trivial
  | op o next ih => exact ih

theorem Returns.bind {Q : β → Prop} (hf : ∀ a, Returns Q (f a)) : Returns Q (x >>= f) :=
  (returns_true x).bind_of_returns fun a _ => hf a

end Returns

section Panics

/-- No branch of a program panics. -/
def NeverPanics : Prog I ε α → Prop
  | .panic => False
  | .op _ next => ∀ r, NeverPanics (next r)
  | _ => True

theorem NeverPanics.bind (hx : NeverPanics x) (hf : ∀ a, NeverPanics (f a)) : NeverPanics (x >>= f) := by
  induction x with
  | ret a => exact hf a
  | fail e => trivial
  | panic => exact hx.elim
  | op o next ih => exact fun r => ih r (hx r)

theorem neverPanics_of_except (result : Except ε α) : NeverPanics (Prog.of_except result : Prog I ε α) := by
  cases result with
  | ok a => trivial
  | error e => trivial

theorem NeverPanics.map_error {g : ε → ε'} (hx : NeverPanics x) : NeverPanics (x.map_error g) := by
  induction x with
  | ret a => trivial
  | fail e => trivial
  | panic => exact hx
  | op o next ih => exact fun r => ih r (hx r)

theorem NeverPanics.outcome_ne (hx : NeverPanics x) : (run who x choices s).outcome ≠ some .panicked := by
  induction x generalizing choices s with
  | ret a => simp
  | fail e => simp
  | panic => exact hx.elim
  | op o next ih =>
    cases choices with
    | nil => rintro ⟨⟩
    | cons choice choices =>
      rw [run]
      cases I.apply who o choice s with
      | none => rintro ⟨⟩
      | some reply => exact ih reply.1 (hx reply.1)

end Panics

end effect
