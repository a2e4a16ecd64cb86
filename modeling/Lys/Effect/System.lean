import Lys.Effect.Contract

namespace effect

inductive Status where
  | idle
  | live
  | crashed
deriving DecidableEq

/-- Programs that run on one state, each at its own point. -/
structure System (I : Interface) (ε α : Type) where
  state : I.State
  procs : I.Who → Prog I ε α
  status : I.Who → Status

/-- A scheduled step: an operation of one program under a choice, or its crash. -/
inductive Action (I : Interface) where
  | act (who : I.Who) (choice : I.Choice)
  | crash (who : I.Who)

namespace System

variable {I : Interface} {ε α : Type} [DecidableEq I.Who]

def step (sys : System I ε α) : Action I → Option (System I ε α)
  | .act who choice =>
    if sys.status who = .crashed then none
    else match sys.procs who with
      | .op o next => (I.apply who o choice sys.state).map fun reply =>
        { state := reply.2
          procs := Function.update sys.procs who (next reply.1)
          status := Function.update sys.status who .live }
      | _ => none
  | .crash who =>
    if sys.status who = .live then some { sys with status := Function.update sys.status who .crashed } else none

/-- The system after a schedule. -/
def exec (sys : System I ε α) (schedule : List (Action I)) : Option (System I ε α) := schedule.foldlM step sys

/-- The states of the runs whose steps all meet a condition. -/
inductive Reaches (cond : System I ε α → Action I → Prop) (sys : System I ε α) : System I ε α → Prop where
  | refl : Reaches cond sys sys
  | tail {mid last : System I ε α} {action : Action I} (hreach : Reaches cond sys mid) (hcond : cond mid action)
      (hstep : mid.step action = some last) : Reaches cond sys last

/-- What a step of an operation is. -/
theorem step_act_eq_some {sys sys' : System I ε α} {who : I.Who} {choice : I.Choice}
    (h : sys.step (.act who choice) = some sys') :
    sys.status who ≠ .crashed ∧ ∃ o next r, sys.procs who = .op o next ∧
      I.apply who o choice sys.state = some (r, sys'.state) ∧
      sys'.procs = Function.update sys.procs who (next r) ∧
      sys'.status = Function.update sys.status who .live := by
  rw [step] at h
  split at h
  next => cases h
  next hstatus =>
    split at h
    next o next hproc =>
      obtain ⟨⟨r, s⟩, happly, rfl⟩ := Option.map_eq_some_iff.mp h
      exact ⟨hstatus, o, next, r, hproc, happly, rfl, rfl⟩
    next => cases h

/-- An operation that is possible is a step. -/
theorem step_act {sys : System I ε α} {who : I.Who} {choice : I.Choice} {o : I.Op} {next : I.Reply o → Prog I ε α}
    {r : I.Reply o} {s : I.State} (hstatus : sys.status who ≠ .crashed) (hproc : sys.procs who = .op o next)
    (happly : I.apply who o choice sys.state = some (r, s)) : sys.step (.act who choice) =
      some ⟨s, Function.update sys.procs who (next r), Function.update sys.status who .live⟩ := by
  rw [step, if_neg hstatus, hproc]
  simp only [happly, Option.map_some]

theorem step_crash_eq_some {sys sys' : System I ε α} {who : I.Who} (h : sys.step (.crash who) = some sys') :
    sys.status who = .live ∧ sys' = { sys with status := Function.update sys.status who .crashed } := by
  rw [step] at h
  split at h
  next hstatus => exact ⟨hstatus, (Option.some.inj h).symm⟩
  next => cases h

/-- Nobody but the crashed gets another status by a crash. -/
theorem status_of_crash {sys : System I ε α} {who other : I.Who} {status : Status} (hstatus : status ≠ .crashed)
    (h : Function.update sys.status who .crashed other = status) : sys.status other = status := by
  by_cases hother : other = who
  · rw [hother, Function.update_self] at h
    exact absurd h.symm hstatus
  · rwa [Function.update_of_ne hother] at h

theorem Reaches.trans {cond : System I ε α → Action I → Prop} {sys mid last : System I ε α}
    (h : Reaches cond sys mid) (h' : Reaches cond mid last) : Reaches cond sys last := by
  induction h' with
  | refl => exact h
  | tail _ hcond hstep ih => exact .tail ih hcond hstep

theorem Reaches.mono {cond cond' : System I ε α → Action I → Prop} {sys last : System I ε α}
    (h : Reaches cond sys last) (himp : ∀ mid action, cond mid action → cond' mid action) : Reaches cond' sys last := by
  induction h with
  | refl => exact .refl
  | tail _ hcond hstep ih => exact .tail ih (himp _ _ hcond) hstep

/-- A schedule whose actions meet the condition in every state. -/
theorem reaches_of_exec_of_forall {cond : System I ε α → Action I → Prop} {sys last : System I ε α}
    {schedule : List (Action I)} (hcond : ∀ action ∈ schedule, ∀ mid, cond mid action) (h : sys.exec schedule = some last) :
    Reaches cond sys last := by
  induction schedule generalizing sys with
  | nil =>
    obtain rfl := Option.some.inj h
    exact .refl
  | cons action schedule ih =>
    rw [exec, List.foldlM_cons] at h
    obtain ⟨mid, hstep, hrest⟩ := Option.bind_eq_some_iff.mp h
    have hfirst : Reaches cond sys mid := .tail .refl (hcond action List.mem_cons_self sys) hstep
    exact hfirst.trans (ih (fun other hother => hcond other (List.mem_cons_of_mem _ hother)) hrest)

theorem reaches_of_exec {sys last : System I ε α} {schedule : List (Action I)} (h : sys.exec schedule = some last) :
    Reaches (fun _ _ => True) sys last := reaches_of_exec_of_forall (fun _ _ _ => trivial) h

/-- Nobody else is in the middle of a program. -/
def Alone (sys : System I ε α) : Action I → Prop
  | .act who _ => ∀ other, other ≠ who → sys.status other = .live → (sys.procs other).head = none
  | .crash _ => True

/-- One program that is run while nobody else is in the middle of one. -/
theorem exists_reaches_run {sys : System I ε α} {who : I.Who} (choices : List I.Choice)
    (hstatus : sys.status who ≠ .crashed)
    (hothers : ∀ other, other ≠ who → sys.status other = .live → (sys.procs other).head = none) :
    ∃ last, Reaches Alone sys last ∧ last.state = (run who (sys.procs who) choices sys.state).state ∧
      ((run who (sys.procs who) choices sys.state).outcome ≠ none → (last.procs who).head = none) ∧
      last.status who ≠ .crashed ∧
      ∀ other, other ≠ who → last.procs other = sys.procs other ∧ last.status other = sys.status other := by
  induction choices generalizing sys with
  | nil =>
    refine ⟨sys, .refl, ?_, fun hout => ?_, hstatus, fun _ _ => ⟨rfl, rfl⟩⟩
    · cases sys.procs who <;> rfl
    · cases hproc : sys.procs who with
      | op o next =>
        rw [hproc] at hout
        exact absurd rfl hout
      | _ => rfl
  | cons choice choices ih =>
    cases hproc : sys.procs who with
    | op o next =>
      rw [run]
      cases happly : I.apply who o choice sys.state with
      | none => exact ⟨sys, .refl, rfl, fun hout => absurd rfl hout, hstatus, fun _ _ => ⟨rfl, rfl⟩⟩
      | some reply =>
        obtain ⟨r, s⟩ := reply
        obtain ⟨after, hstep, rfl, hafter, hlive, hsame⟩ : ∃ after, sys.step (.act who choice) = some after ∧
            after.state = s ∧ after.procs who = next r ∧ after.status who = .live ∧
            ∀ other, other ≠ who → after.procs other = sys.procs other ∧ after.status other = sys.status other :=
          ⟨_, step_act hstatus hproc happly, rfl, Function.update_self .., Function.update_self ..,
            fun other hother => ⟨Function.update_of_ne hother .., Function.update_of_ne hother ..⟩⟩
        obtain ⟨last, hreach, hstate, hdone, hlast, hrest⟩ := @ih after (by simp [hlive]) fun other hother h => by
          rw [(hsame other hother).1]
          exact hothers other hother ((hsame other hother).2 ▸ h)
        rw [hafter] at hstate hdone
        have hfirst : Reaches Alone sys after := .tail .refl (show Alone sys (.act who choice) from hothers) hstep
        refine ⟨last, hfirst.trans hreach, hstate, hdone, hlast, fun other hother => ?_⟩
        rw [(hrest other hother).1, (hrest other hother).2]
        exact hsame other hother
    | ret a => exact ⟨sys, .refl, by rw [run_ret], fun _ => by rw [hproc]; rfl, hstatus, fun _ _ => ⟨rfl, rfl⟩⟩
    | fail e => exact ⟨sys, .refl, by rw [run_fail], fun _ => by rw [hproc]; rfl, hstatus, fun _ _ => ⟨rfl, rfl⟩⟩
    | panic => exact ⟨sys, .refl, by rw [run_panic], fun _ => by rw [hproc]; rfl, hstatus, fun _ _ => ⟨rfl, rfl⟩⟩

/-- Nobody is in the middle of a program. -/
def Resting (sys : System I ε α) : Prop := ∀ who, sys.status who = .live → (sys.procs who).head = none

/-- The next program that is run to its end. -/
theorem exists_reaches_turn {sys : System I ε α} {who : I.Who} {choices : List I.Choice} (hrest : Resting sys)
    (hidle : sys.status who = .idle) (hend : (run who (sys.procs who) choices sys.state).outcome ≠ none) :
    ∃ last, Reaches Alone sys last ∧ last.state = (run who (sys.procs who) choices sys.state).state ∧ Resting last ∧
      ∀ other, other ≠ who → last.procs other = sys.procs other ∧ last.status other = sys.status other := by
  have hstatus : sys.status who ≠ .crashed := by simp [hidle]
  obtain ⟨last, hreach, hstate, hdone, _, hothers⟩ := exists_reaches_run choices hstatus fun other _ => hrest other
  refine ⟨last, hreach, hstate, fun other hlive => ?_, hothers⟩
  by_cases hother : other = who
  · subst hother
    exact hdone hend
  · rw [(hothers other hother).1]
    exact hrest other ((hothers other hother).2 ▸ hlive)

/-- The state after programs are run one after another. -/
def after (procs : I.Who → Prog I ε α) : List (I.Who × List I.Choice) → I.State → I.State
  | [], s => s
  | (who, choices) :: turns, s => after procs turns (run who (procs who) choices s).state

/-- Each of them ends before the next one starts. -/
def completes (procs : I.Who → Prog I ε α) : List (I.Who × List I.Choice) → I.State → Bool
  | [], _ => true
  | (who, choices) :: turns, s =>
    (run who (procs who) choices s).outcome.isSome && completes procs turns (run who (procs who) choices s).state

theorem exists_reaches_after {sys : System I ε α} {procs : I.Who → Prog I ε α} {turns : List (I.Who × List I.Choice)}
    (hrest : Resting sys) (hnodup : (turns.map Prod.fst).Nodup)
    (hidle : ∀ who ∈ turns.map Prod.fst, sys.procs who = procs who ∧ sys.status who = .idle)
    (hends : completes procs turns sys.state = true) :
    ∃ last, Reaches Alone sys last ∧ last.state = after procs turns sys.state := by
  induction turns generalizing sys with
  | nil => exact ⟨sys, .refl, rfl⟩
  | cons turn turns ih =>
    obtain ⟨who, choices⟩ := turn
    rw [completes, Bool.and_eq_true] at hends
    rw [List.map_cons, List.nodup_cons] at hnodup
    obtain ⟨hproc, hstatus⟩ := hidle who List.mem_cons_self
    have hend : (run who (sys.procs who) choices sys.state).outcome ≠ none := by
      rw [hproc, ← Option.isSome_iff_ne_none]
      exact hends.1
    obtain ⟨next, hnext, hstate, hrest, hothers⟩ := exists_reaches_turn hrest hstatus hend
    rw [hproc] at hstate
    have hlater : ∀ other ∈ turns.map Prod.fst, next.procs other = procs other ∧ next.status other = .idle := by
      intro other hother
      have hne : other ≠ who := by
        rintro rfl
        exact hnodup.1 hother
      rw [(hothers other hne).1, (hothers other hne).2]
      exact hidle other (List.mem_cons_of_mem _ hother)
    obtain ⟨last, hlast, hafter⟩ := ih hrest hnodup.2 hlater (by rw [hstate]; exact hends.2)
    exact ⟨last, hnext.trans hlast, by rw [hafter, hstate, after]⟩

end System

/-- The contracts of the programs of a system, what holds before each starts, and how each
may end. -/
structure Family (I : Interface) (ε α : Type) where
  contract : I.Who → Contract I
  start : I.Who → I.State → Prop
  post : I.Who → Outcome ε α → I.State → Prop

namespace Family

variable {I : Interface} {ε α : Type}

/-- Contracts whose relies compose and leave the postconditions true. -/
structure Stable (F : Family I ε α) : Prop where
  rely_refl : ∀ who next s, (F.contract who).rely next s s
  rely_trans : ∀ who next s s' s'', (F.contract who).rely next s s' → (F.contract who).rely next s' s'' →
    (F.contract who).rely next s s''
  post_stable : ∀ who out s s', F.post who out s → (F.contract who).rely none s s' → F.post who out s'

/-- Every program of the system is where its contract lets it be. -/
def Holds (F : Family I ε α) (sys : System I ε α) : Prop :=
  ∀ who, (F.contract who).inv sys.state ∧
    (sys.status who = .idle → F.start who sys.state ∧ ∀ s, F.start who s → (F.contract who).inv s →
      Keeps who (F.contract who) (F.post who) (sys.procs who) s) ∧
    (sys.status who = .live → Keeps who (F.contract who) (F.post who) (sys.procs who) sys.state)

variable {F : Family I ε α}

/-- A rely step keeps a program where its contract lets it be. -/
theorem Stable.keeps (hstable : F.Stable) {who : I.Who} {x : Prog I ε α} {s s' : I.State}
    (h : Keeps who (F.contract who) (F.post who) x s) (hrely : (F.contract who).rely x.head s s') :
    Keeps who (F.contract who) (F.post who) x s' := by
  cases x with
  | ret a => exact hstable.post_stable _ _ _ _ h hrely
  | fail e => exact hstable.post_stable _ _ _ _ h hrely
  | panic => exact hstable.post_stable _ _ _ _ h hrely
  | op o next => exact fun s₁ hrely₁ => h s₁ (hstable.rely_trans _ _ _ _ _ hrely hrely₁)

/-- What is true of a program waiting before an operation. -/
theorem Holds.keeps_of_not_crashed {sys : System I ε α} (h : F.Holds sys) {who : I.Who}
    (hstatus : sys.status who ≠ .crashed) :
    Keeps who (F.contract who) (F.post who) (sys.procs who) sys.state := by
  obtain ⟨hinv, hidle, hlive⟩ := h who
  cases hwho : sys.status who with
  | idle => exact (hidle hwho).2 _ (hidle hwho).1 hinv
  | live => exact hlive hwho
  | crashed => exact absurd hwho hstatus

variable [DecidableEq I.Who]

/-- What the steps of a condition have to respect: they are allowed, and what they do is
what the other programs count on. -/
structure Respects (F : Family I ε α) (cond : System I ε α → Action I → Prop) : Prop where
  allowed : ∀ sys who choice o next, F.Holds sys → cond sys (.act who choice) → sys.status who ≠ .crashed →
    sys.procs who = .op o next → (F.contract who).allowed o choice sys.state
  interfere : ∀ sys who choice o next r s', F.Holds sys → cond sys (.act who choice) → sys.status who ≠ .crashed →
    sys.procs who = .op o next → I.apply who o choice sys.state = some (r, s') →
    (F.contract who).guar o sys.state s' → (F.contract who).inv s' → ∀ other, other ≠ who →
      (F.contract other).inv s' ∧
      (sys.status other = .idle → F.start other sys.state → F.start other s') ∧
      (sys.status other = .live → (F.contract other).rely (sys.procs other).head sys.state s')

/-- One step of a system of contracts. -/
theorem Holds.step {cond : System I ε α → Action I → Prop} (hstable : F.Stable) (hrespects : F.Respects cond)
    {sys sys' : System I ε α} {action : Action I} (h : F.Holds sys) (hcond : cond sys action)
    (hstep : sys.step action = some sys') : F.Holds sys' := by
  cases action with
  | crash who =>
    obtain ⟨_, rfl⟩ := System.step_crash_eq_some hstep
    intro other
    obtain ⟨hinv, hidle, hlive⟩ := h other
    by_cases hother : other = who
    · subst hother
      exact ⟨hinv, by simp, by simp⟩
    · exact ⟨hinv, by simpa [Function.update_of_ne hother] using hidle,
        by simpa [Function.update_of_ne hother] using hlive⟩
  | act who choice =>
    obtain ⟨hstatus, o, next, r, hproc, happly, hprocs, hstatuses⟩ := System.step_act_eq_some hstep
    have hkeeps := h.keeps_of_not_crashed hstatus
    rw [hproc] at hkeeps
    obtain ⟨_, _, hnext⟩ := hkeeps _ (hstable.rely_refl _ _ _) (h who).1
    obtain ⟨hguar, hinv', hafter⟩ :=
      hnext choice r sys'.state (hrespects.allowed sys who choice o next h hcond hstatus hproc) happly
    intro other
    by_cases hother : other = who
    · subst hother
      rw [hprocs, hstatuses]
      exact ⟨hinv', by simp, by simpa using hafter⟩
    · obtain ⟨hinvOther, hstartOther, hrelyOther⟩ := hrespects.interfere sys who choice o next r sys'.state h hcond
        hstatus hproc happly hguar hinv' other hother
      obtain ⟨_, hidle, hlive⟩ := h other
      rw [hprocs, hstatuses, Function.update_of_ne hother, Function.update_of_ne hother]
      refine ⟨hinvOther, fun hwho => ?_, fun hwho => ?_⟩
      · exact ⟨hstartOther hwho (hidle hwho).1, (hidle hwho).2⟩
      · exact hstable.keeps (hlive hwho) (hrelyOther hwho)

/-- What a step of a system of contracts does to the state. -/
theorem Holds.guar {cond : System I ε α → Action I → Prop} (hstable : F.Stable) (hrespects : F.Respects cond)
    {sys sys' : System I ε α} {who : I.Who} {choice : I.Choice} (h : F.Holds sys) (hcond : cond sys (.act who choice))
    (hstep : sys.step (.act who choice) = some sys') : ∃ o, (F.contract who).guar o sys.state sys'.state := by
  obtain ⟨hstatus, o, next, r, hproc, happly, _, _⟩ := System.step_act_eq_some hstep
  have hkeeps := h.keeps_of_not_crashed hstatus
  rw [hproc] at hkeeps
  obtain ⟨_, _, hnext⟩ := hkeeps _ (hstable.rely_refl _ _ _) (h who).1
  have hallowed := hrespects.allowed sys who choice o next h hcond hstatus hproc
  exact ⟨o, (hnext choice r sys'.state hallowed happly).1⟩

/-- Every run whose steps meet the condition keeps the contracts. -/
theorem Holds.reaches {cond : System I ε α → Action I → Prop} (hstable : F.Stable) (hrespects : F.Respects cond)
    {sys sys' : System I ε α} (h : F.Holds sys) (hreach : System.Reaches cond sys sys') : F.Holds sys' := by
  induction hreach with
  | refl => exact h
  | tail _ hcond hstep ih => exact ih.step hstable hrespects hcond hstep

end Family

end effect
