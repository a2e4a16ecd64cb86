import Mathlib

namespace effect

/-- Operations on a shared state. A choice settles what neither the caller nor the state
does: a fault, the order of a listing, how much of a buffer is written. -/
structure Interface where
  Who : Type
  State : Type
  Choice : Type
  Op : Type
  Reply : Op → Type
  apply : Who → (op : Op) → Choice → State → Option (Reply op × State)

/-- Programs of an interface that return, fail or panic. -/
inductive Prog (I : Interface) (ε α : Type) where
  | ret (a : α)
  | fail (e : ε)
  | panic
  | op (o : I.Op) (next : I.Reply o → Prog I ε α)

/-- How a program ends. -/
inductive Outcome (ε α : Type) where
  | done (a : α)
  | failed (e : ε)
  | panicked
deriving DecidableEq

namespace Prog

variable {I : Interface} {ε α β γ : Type}

def bind (x : Prog I ε α) (f : α → Prog I ε β) : Prog I ε β :=
  match x with
  | .ret a => f a
  | .fail e => .fail e
  | .panic => .panic
  | .op o next => .op o fun r => (next r).bind f

instance : Monad (Prog I ε) where
  pure := .ret
  bind := bind

@[simp] theorem pure_eq (a : α) : (pure a : Prog I ε α) = .ret a := rfl

@[simp] theorem ret_bind (a : α) (f : α → Prog I ε β) : (.ret a >>= f) = f a := rfl

@[simp] theorem fail_bind (e : ε) (f : α → Prog I ε β) : (.fail e >>= f) = .fail e := rfl

@[simp] theorem panic_bind (f : α → Prog I ε β) : (.panic >>= f) = .panic := rfl

@[simp] theorem op_bind (o : I.Op) (next : I.Reply o → Prog I ε α) (f : α → Prog I ε β) :
    (.op o next >>= f) = .op o fun r => next r >>= f := rfl

theorem bind_assoc (x : Prog I ε α) (f : α → Prog I ε β) (g : β → Prog I ε γ) :
    (x >>= f >>= g) = x >>= fun a => f a >>= g := by
  induction x with
  | ret a => rfl
  | fail e => rfl
  | panic => rfl
  | op o next ih =>
    rw [op_bind, op_bind, op_bind]
    exact congrArg _ (funext ih)

/-- One operation, returning its reply. -/
def perform (o : I.Op) : Prog I ε (I.Reply o) := .op o .ret

/-- A pure result as a program. -/
def of_except (x : Except ε α) : Prog I ε α :=
  match x with
  | .ok a => .ret a
  | .error e => .fail e

@[simp] theorem of_except_ok (a : α) : (of_except (.ok a) : Prog I ε α) = .ret a := rfl

@[simp] theorem of_except_error (e : ε) : (of_except (.error e) : Prog I ε α) = .fail e := rfl

/-- A program with another error for each of its own. -/
def map_error {ε' : Type} (f : ε → ε') : Prog I ε α → Prog I ε' α
  | .ret a => .ret a
  | .fail e => .fail (f e)
  | .panic => .panic
  | .op o next => .op o fun r => (next r).map_error f

/-- A program that returns its failures. -/
def attempt {ε' : Type} : Prog I ε α → Prog I ε' (Except ε α)
  | .ret a => .ret (.ok a)
  | .fail e => .ret (.error e)
  | .panic => .panic
  | .op o next => .op o fun r => (next r).attempt

/-- The operation a program performs next. -/
def head : Prog I ε α → Option I.Op
  | .op o _ => some o
  | _ => none

/-- How a program that has ended has ended. -/
def outcome : Prog I ε α → Option (Outcome ε α)
  | .op _ _ => none
  | .ret a => some (.done a)
  | .fail e => some (.failed e)
  | .panic => some .panicked

theorem eq_ret_of_outcome {x : Prog I ε α} {a : α} (h : x.outcome = some (.done a)) : x = .ret a := by
  cases x with
  | ret b =>
    obtain rfl := Outcome.done.inj (Option.some.inj h)
    rfl
  | fail e => cases h
  | panic => cases h
  | op o next => cases h

end Prog

section Run

variable {I : Interface} {ε α β : Type}

/-- Where a run stands when it ends: with an outcome, or stopped before its next operation. -/
structure Ending (I : Interface) (ε α : Type) where
  outcome : Option (Outcome ε α)
  choices : List I.Choice
  state : I.State

/-- Runs a program under a list of choices. It stops where they are used up, or where the
next one is impossible. -/
def run (who : I.Who) : Prog I ε α → List I.Choice → I.State → Ending I ε α
  | .ret a, choices, s => ⟨some (.done a), choices, s⟩
  | .fail e, choices, s => ⟨some (.failed e), choices, s⟩
  | .panic, choices, s => ⟨some .panicked, choices, s⟩
  | .op _ _, [], s => ⟨none, [], s⟩
  | .op o next, choice :: choices, s =>
    match I.apply who o choice s with
    | none => ⟨none, choice :: choices, s⟩
    | some (r, s') => run who (next r) choices s'

variable {who : I.Who}

@[simp] theorem run_ret (a : α) (choices : List I.Choice) (s : I.State) :
    run who (.ret a : Prog I ε α) choices s = ⟨some (.done a), choices, s⟩ := by cases choices <;> rfl

@[simp] theorem run_fail (e : ε) (choices : List I.Choice) (s : I.State) :
    run who (.fail e : Prog I ε α) choices s = ⟨some (.failed e), choices, s⟩ := by cases choices <;> rfl

@[simp] theorem run_panic (choices : List I.Choice) (s : I.State) :
    run who (.panic : Prog I ε α) choices s = ⟨some .panicked, choices, s⟩ := by cases choices <;> rfl

end Run

end effect
