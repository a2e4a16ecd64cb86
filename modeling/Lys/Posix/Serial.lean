import Lys.Posix.Interface

open rust effect

namespace posix

variable {Who Event ε α : Type} {who : Who} {trace : List (Who × Op Event)}

/-- The entries of a process are the last ones of a trace. -/
def Front (who : Who) (trace : List (Who × Op Event)) : Prop :=
  ∃ block rest, trace = block ++ rest ∧ (∀ entry ∈ block, entry.1 = who) ∧ ∀ entry ∈ rest, entry.1 ≠ who

theorem front_of_ne (h : ∀ entry ∈ trace, entry.1 ≠ who) : Front who trace := ⟨[], trace, rfl, by simp, h⟩

theorem Front.cons {op : Op Event} (h : Front who trace) : Front who ((who, op) :: trace) := by
  obtain ⟨block, rest, rfl, hblock, hrest⟩ := h
  refine ⟨(who, op) :: block, rest, rfl, fun entry hentry => ?_, hrest⟩
  obtain rfl | hentry := List.mem_cons.mp hentry
  · rfl
  · exact hblock entry hentry

/-- Behind an entry of somebody else, nothing is of the process. -/
theorem Front.ne_of_suffix {other : Who × Op Event} {rest : List (Who × Op Event)} (h : Front who trace)
    (hsuffix : other :: rest <:+ trace) (hother : other.1 ≠ who) : ∀ entry ∈ other :: rest, entry.1 ≠ who := by
  obtain ⟨block, before, rfl, hblock, hbefore⟩ := h
  obtain hle | hle := List.suffix_or_suffix_of_suffix hsuffix (List.suffix_append block before)
  · exact fun entry hentry => hbefore entry (hle.mem hentry)
  · obtain ⟨front, heq⟩ := hle
    cases front with
    | nil =>
      rw [List.nil_append] at heq
      exact heq ▸ hbefore
    | cons first front =>
      -- the entry would be one of the block
      obtain ⟨newer, hnewer⟩ := hsuffix
      rw [← heq, ← List.append_assoc, List.append_cancel_right_eq] at hnewer
      obtain ⟨rfl, _⟩ := List.cons.inj heq
      exact absurd (hblock first (hnewer ▸ by simp)) hother

/-- The processes of a system ran one after another. -/
structure Serial (sys : System (Calls Who Event) ε α) : Prop where
  idle : ∀ who, sys.status who = .idle → ∀ entry ∈ sys.state.trace, entry.1 ≠ who
  running : ∀ who, sys.status who = .live → (sys.procs who).head ≠ none → Front who sys.state.trace
  apart : ∀ entry older, entry :: older <:+ sys.state.trace → Front entry.1 older

/-- A call enters the trace or leaves it as it is. -/
theorem trace_of_apply {op : Op Event} {choice : Choice} {r : op.Reply} {w w' : World Who Event}
    (h : apply who op choice w = some (r, w')) : w'.trace = w.trace ∨ w'.trace = (who, op) :: w.trace := by
  have hchange : ∀ {β : Type} {result : Except IoError (β × Fs)} {reply : Except IoError β},
      w.attempt who op result choice = some (reply, w') → w'.trace = w.trace ∨ w'.trace = (who, op) :: w.trace := by
    intro β result reply h
    obtain ⟨_, _, rfl, _⟩ | ⟨_, _, _, _, rfl⟩ := World.attempt_eq_some h
    · exact .inl rfl
    · exact .inr rfl
  cases op with
  | path_exists path => exact .inl (congrArg World.trace (World.ask_eq_some h).1)
  | is_file path => exact .inl (congrArg World.trace (World.ask_eq_some h).1)
  | is_dir path => exact .inl (congrArg World.trace (World.ask_eq_some h).1)
  | read path =>
    cases choice with
    | proceed => exact .inl (congrArg (fun reply => reply.2.trace) (Option.some.inj h)).symm
    | fault => exact .inl (congrArg (fun reply => reply.2.trace) (Option.some.inj h)).symm
    | stores => cases h
    | lists => cases h
    | cut => cases h
  | read_dir path => exact .inl (congrArg World.trace (World.list_eq_some h).1)
  | mkdir path => exact hchange h
  | create_new path => exact hchange h
  | create path => exact hchange h
  | write inode offset bytes =>
    obtain ⟨_, _, rfl, _⟩ | ⟨_, _, _, _, _, rfl⟩ := World.write_eq_some h
    · exact .inl rfl
    · exact .inr rfl
  | rename source target => exact hchange h
  | hard_link source target => exact hchange h
  | remove_file path => exact hchange h
  | set_permissions path => exact hchange h
  | record event => exact .inr (congrArg (fun reply => reply.2.trace) (Option.some.inj h)).symm

variable [DecidableEq Who] {sys last : System (Calls Who Event) ε α} {action : Action (Calls Who Event)}

theorem Serial.step (h : Serial sys) (hcond : System.Alone sys action) (hstep : sys.step action = some last) : Serial last := by
  cases action with
  | crash who =>
    obtain ⟨_, rfl⟩ := System.step_crash_eq_some hstep
    exact ⟨fun other hother => h.idle other (System.status_of_crash (by simp) hother),
      fun other hother => h.running other (System.status_of_crash (by simp) hother), h.apart⟩
  | act who choice =>
    obtain ⟨hstatus, op, next, r, hproc, happly, hprocs, hstatuses⟩ := System.step_act_eq_some hstep
    have hfront : Front who sys.state.trace := by
      cases hwho : sys.status who with
      | idle => exact front_of_ne (h.idle who hwho)
      | live => exact h.running who hwho (by rw [hproc]; rintro ⟨⟩)
      | crashed => exact absurd hwho hstatus
    have htrace := trace_of_apply happly
    refine ⟨fun other hother entry hentry => ?_, fun other hother hhead => ?_, fun entry older hsuffix => ?_⟩
    · have hwho : other ≠ who := by
        rintro rfl
        rw [hstatuses, Function.update_self] at hother
        cases hother
      rw [hstatuses, Function.update_of_ne hwho] at hother
      obtain heq | heq := htrace
      · exact h.idle other hother entry (heq ▸ hentry)
      · rw [heq] at hentry
        obtain rfl | hentry := List.mem_cons.mp hentry
        · exact hwho.symm
        · exact h.idle other hother entry hentry
    · by_cases hwho : other = who
      · subst hwho
        obtain heq | heq := htrace
        · exact heq ▸ hfront
        · exact heq ▸ hfront.cons
      · rw [hprocs, Function.update_of_ne hwho] at hhead
        rw [hstatuses, Function.update_of_ne hwho] at hother
        exact absurd (hcond other hwho hother) hhead
    · obtain heq | heq := htrace
      · exact h.apart entry older (heq ▸ hsuffix)
      · rw [heq] at hsuffix
        obtain heq | hsuffix := List.suffix_cons_iff.mp hsuffix
        · obtain ⟨rfl, rfl⟩ := List.cons.inj heq
          exact hfront
        · exact h.apart entry older hsuffix

/-- Where nobody acts while somebody else is in the middle of a program, the processes run one
after another. -/
theorem serial_of_reaches (htrace : sys.state.trace = []) (hidle : ∀ who, sys.status who = .idle)
    (hreach : System.Reaches System.Alone sys last) : Serial last := by
  induction hreach with
  | refl =>
    refine ⟨fun who _ => by simp [htrace], fun who hlive => ?_, fun entry older hsuffix => ?_⟩
    · rw [hidle who] at hlive
      cases hlive
    · simp [htrace] at hsuffix
  | tail _ hcond hstep ih => exact ih.step hcond hstep


end posix
