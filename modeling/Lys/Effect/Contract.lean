import Lys.Effect.Program

namespace effect

/-- What a program promises about its steps and what it counts on in between. -/
structure Contract (I : Interface) where
  /-- What others may do to the state before the next operation (`none`: after the end). -/
  rely : Option I.Op → I.State → I.State → Prop
  /-- What an operation of the program does to the state. -/
  guar : I.Op → I.State → I.State → Prop
  /-- What holds while the program waits before an operation. -/
  rest : I.Op → I.State → Prop
  /-- What holds in every state. -/
  inv : I.State → Prop
  /-- The choices the program is run under. -/
  allowed : I.Op → I.Choice → I.State → Prop
  /-- Whether every operation has to have an allowed choice. -/
  progress : Prop

variable {I : Interface} {ε α β : Type} {who : I.Who} {C : Contract I}

/-- A program keeps its contract from a state on and ends as `post` says. -/
def Keeps (who : I.Who) (C : Contract I) (post : Outcome ε α → I.State → Prop) : Prog I ε α → I.State → Prop
  | .ret a, s => post (.done a) s
  | .fail e, s => post (.failed e) s
  | .panic, s => post .panicked s
  | .op o next, s => ∀ s₁, C.rely (some o) s s₁ → C.inv s₁ →
      C.rest o s₁ ∧
      (C.progress → ∃ choice r s₂, C.allowed o choice s₁ ∧ I.apply who o choice s₁ = some (r, s₂)) ∧
      ∀ choice r s₂, C.allowed o choice s₁ → I.apply who o choice s₁ = some (r, s₂) →
        C.guar o s₁ s₂ ∧ C.inv s₂ ∧ Keeps who C post (next r) s₂

/-- The end of the first part of a sequence is the start of the second. -/
def andThen (who : I.Who) (C : Contract I) (post : Outcome ε β → I.State → Prop) (f : α → Prog I ε β) :
    Outcome ε α → I.State → Prop
  | .done a, s => Keeps who C post (f a) s
  | .failed e, s => post (.failed e) s
  | .panicked, s => post .panicked s

theorem Keeps.bind {post : Outcome ε β → I.State → Prop} {x : Prog I ε α} {f : α → Prog I ε β} {s : I.State}
    (h : Keeps who C (andThen who C post f) x s) : Keeps who C post (x >>= f) s := by
  induction x generalizing s with
  | ret a => exact h
  | fail e => exact h
  | panic => exact h
  | op o next ih =>
    intro s₁ hrely hinv
    obtain ⟨hrest, hprogress, hstep⟩ := h s₁ hrely hinv
    refine ⟨hrest, hprogress, fun choice r s₂ hallowed happly => ?_⟩
    obtain ⟨hguar, hinv₂, hnext⟩ := hstep choice r s₂ hallowed happly
    exact ⟨hguar, hinv₂, ih r hnext⟩

theorem Keeps.mono {post post' : Outcome ε α → I.State → Prop} {x : Prog I ε α} {s : I.State}
    (h : Keeps who C post x s) (himp : ∀ out s, post out s → post' out s) : Keeps who C post' x s := by
  induction x generalizing s with
  | ret a => exact himp _ _ h
  | fail e => exact himp _ _ h
  | panic => exact himp _ _ h
  | op o next ih =>
    intro s₁ hrely hinv
    obtain ⟨hrest, hprogress, hstep⟩ := h s₁ hrely hinv
    refine ⟨hrest, hprogress, fun choice r s₂ hallowed happly => ?_⟩
    obtain ⟨hguar, hinv₂, hnext⟩ := hstep choice r s₂ hallowed happly
    exact ⟨hguar, hinv₂, ih r hnext⟩

/-- An outcome with another error for each. -/
def Outcome.map_error {ε' : Type} (f : ε → ε') : Outcome ε α → Outcome ε' α
  | .done a => .done a
  | .failed e => .failed (f e)
  | .panicked => .panicked

theorem Keeps.map_error {ε' : Type} {f : ε → ε'} {post : Outcome ε' α → I.State → Prop} {x : Prog I ε α}
    {s : I.State} (h : Keeps who C (fun out s => post (out.map_error f) s) x s) :
    Keeps who C post (x.map_error f) s := by
  induction x generalizing s with
  | ret a => exact h
  | fail e => exact h
  | panic => exact h
  | op o next ih =>
    intro s₁ hrely hinv
    obtain ⟨hrest, hprogress, hstep⟩ := h s₁ hrely hinv
    refine ⟨hrest, hprogress, fun choice r s₂ hallowed happly => ?_⟩
    obtain ⟨hguar, hinv₂, hnext⟩ := hstep choice r s₂ hallowed happly
    exact ⟨hguar, hinv₂, ih r hnext⟩

/-- An outcome whose failure is a value. -/
def Outcome.attempt {ε' : Type} : Outcome ε α → Outcome ε' (Except ε α)
  | .done a => .done (.ok a)
  | .failed e => .done (.error e)
  | .panicked => .panicked

theorem Keeps.attempt {ε' : Type} {post : Outcome ε' (Except ε α) → I.State → Prop} {x : Prog I ε α}
    {s : I.State} (h : Keeps who C (fun out s => post out.attempt s) x s) : Keeps who C post x.attempt s := by
  induction x generalizing s with
  | ret a => exact h
  | fail e => exact h
  | panic => exact h
  | op o next ih =>
    intro s₁ hrely hinv
    obtain ⟨hrest, hprogress, hstep⟩ := h s₁ hrely hinv
    refine ⟨hrest, hprogress, fun choice r s₂ hallowed happly => ?_⟩
    obtain ⟨hguar, hinv₂, hnext⟩ := hstep choice r s₂ hallowed happly
    exact ⟨hguar, hinv₂, ih r hnext⟩

section Run

/-- A run under allowed choices keeps the invariant and ends in the postcondition. -/
theorem Keeps.run {post : Outcome ε α → I.State → Prop} {x : Prog I ε α} {choices : List I.Choice} {s : I.State}
    (hrefl : ∀ o s, C.rely (some o) s s) (h : Keeps who C post x s) (hinv : C.inv s)
    (hallowed : ∀ choice ∈ choices, ∀ o s, C.allowed o choice s) :
    C.inv (run who x choices s).state ∧
      ∀ out, (run who x choices s).outcome = some out → post out (run who x choices s).state := by
  induction x generalizing s choices with
  | ret a => simpa using ⟨hinv, h⟩
  | fail e => simpa using ⟨hinv, h⟩
  | panic => simpa using ⟨hinv, h⟩
  | op o next ih =>
    cases choices with
    | nil => exact ⟨hinv, fun out hout => by cases hout⟩
    | cons choice choices =>
      obtain ⟨_, _, hstep⟩ := h s (hrefl o s) hinv
      rw [effect.run]
      cases happly : I.apply who o choice s with
      | none => exact ⟨hinv, fun out hout => by cases hout⟩
      | some reply =>
        obtain ⟨r, s₂⟩ := reply
        obtain ⟨_, hinv₂, hnext⟩ := hstep choice r s₂ (hallowed choice List.mem_cons_self o s) happly
        exact ih r hnext hinv₂ fun choice hchoice => hallowed choice (List.mem_cons_of_mem _ hchoice)

end Run

section Step

/-- A triple of one operation: `A` stays true while the program waits for it, and the step
leads to `B` of its reply. -/
structure Step (who : I.Who) (C : Contract I) (A : I.State → Prop) (o : I.Op)
    (B : I.Reply o → I.State → Prop) : Prop where
  stable : ∀ s s', A s → C.rely (some o) s s' → C.inv s' → A s'
  rest : ∀ s, A s → C.inv s → C.rest o s
  progress : C.progress → ∀ s, A s → C.inv s →
    ∃ choice r s', C.allowed o choice s ∧ I.apply who o choice s = some (r, s')
  step : ∀ s choice r s', A s → C.inv s → C.allowed o choice s → I.apply who o choice s = some (r, s') →
    C.guar o s s' ∧ C.inv s' ∧ B r s'

theorem Step.imp {A : I.State → Prop} {o : I.Op} {B B' : I.Reply o → I.State → Prop} (h : Step who C A o B)
    (himp : ∀ r s, B r s → B' r s) : Step who C A o B' where
  stable := h.stable
  rest := h.rest
  progress := h.progress
  step s choice r s' hs hinv hallowed happly :=
    have hafter := h.step s choice r s' hs hinv hallowed happly
    ⟨hafter.1, hafter.2.1, himp r s' hafter.2.2⟩

theorem Keeps.op {post : Outcome ε α → I.State → Prop} {A : I.State → Prop} {o : I.Op}
    {B : I.Reply o → I.State → Prop} {next : I.Reply o → Prog I ε α} {s : I.State} (h : Step who C A o B)
    (hs : A s) (hnext : ∀ r s', B r s' → C.inv s' → Keeps who C post (next r) s') :
    Keeps who C post (.op o next) s := by
  intro s₁ hrely hinv
  have hs₁ := h.stable s s₁ hs hrely hinv
  refine ⟨h.rest s₁ hs₁ hinv, fun hprogress => h.progress hprogress s₁ hs₁ hinv, fun choice r s₂ hallowed happly => ?_⟩
  obtain ⟨hguar, hinv₂, hB⟩ := h.step s₁ choice r s₂ hs₁ hinv hallowed happly
  exact ⟨hguar, hinv₂, hnext r s₂ hB hinv₂⟩

end Step

/-- Nobody else acts. -/
def Contract.alone (inv : I.State → Prop) (allowed : I.Op → I.Choice → I.State → Prop) (progress : Prop) :
    Contract I where
  rely _ s s' := s = s'
  guar _ _ _ := True
  rest _ _ := True
  inv := inv
  allowed := allowed
  progress := progress

theorem Step.alone {inv : I.State → Prop} {allowed : I.Op → I.Choice → I.State → Prop} {progress : Prop}
    {A : I.State → Prop} {o : I.Op} {B : I.Reply o → I.State → Prop}
    (hprogress : progress → ∀ s, A s → ∃ choice r s', allowed o choice s ∧ I.apply who o choice s = some (r, s'))
    (hstep : ∀ s choice r s', A s → inv s → allowed o choice s → I.apply who o choice s = some (r, s') →
      inv s' ∧ B r s') : Step who (.alone inv allowed progress) A o B where
  stable _ _ hs hrely _ := hrely ▸ hs
  rest _ _ _ := trivial
  progress hp s hs _ := hprogress hp s hs
  step s choice r s' hs hinv hallowed happly := ⟨trivial, hstep s choice r s' hs hinv hallowed happly⟩

end effect
