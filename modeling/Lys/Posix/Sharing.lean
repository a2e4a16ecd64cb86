import Lys.Posix.Owned

open rust effect posix Fs

namespace posix

variable {Who Event ε α : Type} {P : Path → Prop} {R : Event → Prop}

section Owned

variable {held : Who → Option Nat} {sys sys' : System (Calls Who Event) ε α} {who other : Who} {choice : Choice}
  {action : Action (Calls Who Event)} {path : Path} {bytes : Bytes}

/-- Nobody who is live is about to write to the file at a path. -/
def Quiet (sys : System (Calls Who Event) ε α) (path : Path) : Prop :=
  ∀ who inode offset bytes, sys.status who = .live → (sys.procs who).head = some (.write inode offset bytes) →
    sys.state.fs.find path ≠ some (.file inode)

/-- A file that is there to stay. -/
def Fixed (sys : System (Calls Who Event) ε α) (path : Path) (bytes : Bytes) : Prop :=
  sys.state.fs.file path = some bytes ∧ Quiet sys path

/-- The files at the paths `P` are written by whoever made them. -/
structure Owned (P : Path → Prop) (R : Event → Prop) (held : Who → Option Nat) (sys : System (Calls Who Event) ε α) :
    Prop where
  one_name : OneName P sys.state.fs
  spares : ∀ who, sys.status who ≠ .crashed → Spares P R (held who) (sys.procs who)
  idle : ∀ who, sys.status who = .idle → held who = none
  bound : ∀ who inode, held who = some inode → inode < sys.state.fs.contents.length
  created : ∀ who inode p, held who = some inode → P p → sys.state.fs.find p = some (.file inode) →
    (who, .create_new p) ∈ sys.state.trace
  once : ∀ who other p, P p → (who, .create_new p) ∈ sys.state.trace → (other, .create_new p) ∈ sys.state.trace →
    other = who
  stays : ∀ who p, P p → (who, .create_new p) ∈ sys.state.trace → ∃ inode, sys.state.fs.find p = some (.file inode)

/-- Who is about to write holds the file open. -/
theorem Owned.held_of_head {inode offset : Nat} (h : Owned P R held sys) (hstatus : sys.status who ≠ .crashed)
    (hhead : (sys.procs who).head = some (.write inode offset bytes)) : held who = some inode := by
  have hspares := h.spares who hstatus
  cases hproc : sys.procs who with
  | op op next =>
    rw [hproc] at hhead hspares
    obtain rfl := Option.some.inj hhead
    exact hspares.1
  | ret a =>
    rw [hproc] at hhead
    cases hhead
  | fail e =>
    rw [hproc] at hhead
    cases hhead
  | panic =>
    rw [hproc] at hhead
    cases hhead

/-- Only its maker writes to a file at the paths `P`. -/
theorem Owned.mem_of_head {inode offset : Nat} (h : Owned P R held sys) (hstatus : sys.status who ≠ .crashed)
    (hhead : (sys.procs who).head = some (.write inode offset bytes)) (hpath : P path)
    (hfind : sys.state.fs.find path = some (.file inode)) : (who, .create_new path) ∈ sys.state.trace :=
  h.created who inode path (h.held_of_head hstatus hhead) hpath hfind

theorem Owned.quiet_of_mem (h : Owned P R held sys) (hpath : P path) (hmem : (who, .create_new path) ∈ sys.state.trace)
    (hhead : ∀ inode offset bytes, (sys.procs who).head ≠ some (.write inode offset bytes)) : Quiet sys path := by
  intro other inode offset bytes hlive hother hfind
  have hmaker := h.mem_of_head (by rw [hlive]; simp) hother hpath hfind
  obtain rfl := h.once who other path hpath hmem hmaker
  exact hhead _ _ _ hother

variable [DecidableEq Who]

/-- What a call of the system does to the files at the paths `P`. -/
theorem Owned.kept (h : Owned P R held sys) (hstep : sys.step (.act who choice) = some sys') :
    sys.status who ≠ .crashed ∧ ∃ op r, (sys.procs who).head = some op ∧
      Kept P who (held who) op r sys.state sys'.state ∧
      (sys.status who = .idle → ∀ inode offset bytes, op ≠ .write inode offset bytes) ∧
      Spares P R (Op.opens (held who) op r) (sys'.procs who) ∧ sys'.status who = .live ∧
      ∀ other, other ≠ who → sys'.procs other = sys.procs other ∧ sys'.status other = sys.status other := by
  obtain ⟨hstatus, op, next, r, hproc, happly, hprocs, hstatuses⟩ := System.step_act_eq_some hstep
  have hspares := h.spares who hstatus
  rw [hproc] at hspares
  refine ⟨hstatus, op, r, by rw [hproc]; rfl, hspares.1.kept h.one_name happly, ?_, ?_, ?_, fun other hother => ?_⟩
  · rintro hidle inode offset bytes rfl
    have hheld : held who = some inode := hspares.1
    rw [h.idle who hidle] at hheld
    cases hheld
  · rw [hprocs, Function.update_self]
    exact hspares.2 r
  · rw [hstatuses, Function.update_self]
  · rw [hprocs, hstatuses, Function.update_of_ne hother, Function.update_of_ne hother]
    exact ⟨rfl, rfl⟩

/-- A step leaves every file with its maker. -/
theorem Owned.step (h : Owned P R held sys) (hstep : sys.step action = some sys') : ∃ held', Owned P R held' sys' := by
  cases action with
  | crash who =>
    obtain ⟨_, rfl⟩ := System.step_crash_eq_some hstep
    refine ⟨held, h.one_name, fun other hother => h.spares other fun hcrashed => hother ?_,
      fun other hother => h.idle other (System.status_of_crash (by simp) hother), h.bound, h.created, h.once, h.stays⟩
    change Function.update sys.status who .crashed other = .crashed
    by_cases hwho : other = who
    · rw [hwho, Function.update_self]
    · rw [Function.update_of_ne hwho, hcrashed]
  | act who choice =>
    obtain ⟨_, op, r, _, hkept, _, hspares, hlive, hothers⟩ := h.kept hstep
    have hold : ∀ {p inode}, P p → sys'.state.fs.find p = some (.file inode) → inode < sys.state.fs.contents.length →
        sys.state.fs.find p = some (.file inode) := fun hp hfile hlt =>
      (hkept.known _ _ hp hfile).resolve_right (Nat.not_le.mpr hlt)
    have hstays : ∀ {p}, P p → (∃ inode, sys.state.fs.find p = some (.file inode)) →
        ∃ inode, sys'.state.fs.find p = some (.file inode) := fun hp ⟨inode, hfile⟩ => ⟨inode, hkept.find _ _ hp hfile⟩
    refine ⟨Function.update held who (Op.opens (held who) op r), hkept.one_name, fun other hother => ?_,
      fun other hother => ?_, fun other inode hheld => ?_, fun other inode p hheld hp hfile => ?_,
      fun other other' p hp hmem hmem' => ?_, fun other p hp hmem => ?_⟩
    · by_cases hwho : other = who
      · subst hwho
        rw [Function.update_self]
        exact hspares
      · rw [Function.update_of_ne hwho, (hothers other hwho).1]
        exact h.spares other ((hothers other hwho).2 ▸ hother)
    · by_cases hwho : other = who
      · rw [hwho, hlive] at hother
        cases hother
      · rw [Function.update_of_ne hwho]
        exact h.idle other ((hothers other hwho).2 ▸ hother)
    · by_cases hwho : other = who
      · subst hwho
        rw [Function.update_self] at hheld
        obtain ⟨_, _, _, hbefore⟩ | ⟨hlt, _⟩ := hkept.opened inode hheld
        · exact (h.bound _ _ hbefore).trans_le hkept.allocated
        · exact hlt
      · rw [Function.update_of_ne hwho] at hheld
        exact (h.bound _ _ hheld).trans_le hkept.allocated
    · by_cases hwho : other = who
      · subst hwho
        rw [Function.update_self] at hheld
        obtain ⟨_, _, _, hbefore⟩ | ⟨_, hnew⟩ := hkept.opened inode hheld
        · exact hkept.suffix.mem (h.created _ _ _ hbefore hp (hold hp hfile (h.bound _ _ hbefore)))
        · exact (hnew p hp hfile).2
      · rw [Function.update_of_ne hwho] at hheld
        exact hkept.suffix.mem (h.created _ _ _ hheld hp (hold hp hfile (h.bound _ _ hheld)))
    · obtain hmem | ⟨rfl, hnone, _⟩ := hkept.made other p hp hmem
      · obtain hmem' | ⟨rfl, hnone, _⟩ := hkept.made other' p hp hmem'
        · exact h.once _ _ p hp hmem hmem'
        · obtain ⟨inode, hfile⟩ := h.stays _ p hp hmem
          rw [hnone] at hfile
          cases hfile
      · obtain hmem' | ⟨rfl, _⟩ := hkept.made other' p hp hmem'
        · obtain ⟨inode, hfile⟩ := h.stays _ p hp hmem'
          rw [hnone] at hfile
          cases hfile
        · rfl
    · obtain hmem | ⟨_, _, hfile⟩ := hkept.made other p hp hmem
      · exact hstays hp (h.stays _ p hp hmem)
      · exact hfile

/-- A file that nobody is writing stays as it is. -/
theorem Owned.fixed (h : Owned P R held sys) (hstep : sys.step action = some sys') (hpath : P path)
    (hfixed : Fixed sys path bytes) : Fixed sys' path bytes := by
  obtain ⟨hfile, hquiet⟩ := hfixed
  cases action with
  | crash who =>
    obtain ⟨_, rfl⟩ := System.step_crash_eq_some hstep
    exact ⟨hfile, fun other inode offset bytes hlive =>
      hquiet other inode offset bytes (System.status_of_crash (by simp) hlive)⟩
  | act who choice =>
    obtain ⟨hstatus, op, r, hhead, hkept, hidle, hspares, _, hothers⟩ := h.kept hstep
    obtain ⟨inode, hfind, hcontent⟩ := file_eq_some_iff.mp hfile
    have hnever : ∀ offset bytes, op ≠ .write inode offset bytes := by
      rintro offset bytes rfl
      cases hwho : sys.status who with
      | idle => exact hidle hwho _ _ _ rfl
      | live => exact hquiet who inode offset bytes hwho hhead hfind
      | crashed => exact hstatus hwho
    refine ⟨file_eq_some_iff.mpr ⟨inode, hkept.find _ _ hpath hfind, ?_⟩, ?_⟩
    · rw [← hcontent]
      refine (hkept.content _ _ hpath hfind).resolve_right ?_
      rintro ⟨offset, bytes, hwrite⟩
      exact hnever offset bytes hwrite
    · intro other inode' offset bytes' hlive hother hfind'
      rw [hkept.find _ _ hpath hfind] at hfind'
      obtain rfl := Node.file.inj (Option.some.inj hfind')
      by_cases hwho : other = who
      · subst hwho
        obtain ⟨held', howned⟩ := h.step hstep
        have hheld : Op.opens (held other) op r = some inode := by
          cases hproc : sys'.procs other with
          | op op' next' =>
            rw [hproc] at hother hspares
            obtain rfl := Option.some.inj hother
            exact hspares.1
          | ret a => rw [hproc] at hother; cases hother
          | fail e => rw [hproc] at hother; cases hother
          | panic => rw [hproc] at hother; cases hother
        obtain ⟨offset, bytes, hwrite, _⟩ | ⟨_, hnew⟩ := hkept.opened inode hheld
        · exact hnever offset bytes hwrite
        · have hnone := (hnew path hpath (hkept.find _ _ hpath hfind)).1
          rw [hfind] at hnone
          cases hnone
      · rw [(hothers other hwho).1] at hother
        rw [(hothers other hwho).2] at hlive
        exact hquiet other inode offset bytes' hlive hother hfind

/-- Others leave a file alone. -/
theorem Owned.file_eq (h : Owned P R held sys) (hstep : sys.step (.act who choice) = some sys') (hother : other ≠ who)
    (hpath : P path) (hmem : (other, .create_new path) ∈ sys.state.trace) :
    sys'.state.fs.file path = sys.state.fs.file path := by
  obtain ⟨hstatus, op, r, hhead, hkept, _⟩ := h.kept hstep
  obtain ⟨inode, hfind⟩ := h.stays other path hpath hmem
  have hfile : sys.state.fs.file path = some (sys.state.fs.content inode) := file_eq_some_iff.mpr ⟨inode, hfind, rfl⟩
  rw [hfile, file_eq_some_iff]
  refine ⟨inode, hkept.find _ _ hpath hfind, (hkept.content _ _ hpath hfind).resolve_right ?_⟩
  rintro ⟨offset, bytes, rfl⟩
  exact hother (h.once who other path hpath (h.mem_of_head hstatus hhead hpath hfind) hmem)

end Owned

section Rule

variable {base : Path → Option Bytes} {final final' : Path → Bytes → Prop} {who : Who} {w w' w'' : World Who Event}
  {held : Who → Option Nat} {sys last : System (Calls Who Event) ε α}

/-- Nothing goes from the trace or from the paths `P`. -/
structure Grows (P : Path → Prop) (w w' : World Who Event) : Prop where
  trace : w.trace <:+ w'.trace
  find : ∀ p node, P p → w.fs.find p = some node → w'.fs.find p = some node

theorem Kept.grows {op : Op Event} {r : op.Reply} {held : Option Nat} (h : Kept P who held op r w w') : Grows P w w' :=
  ⟨h.suffix, h.find⟩

/-- What others leave alone: the files that were there at the start, and what a process made. -/
structure Undisturbed (P : Path → Prop) (base : Path → Option Bytes) (who : Who) (w w' : World Who Event) : Prop
    extends Grows P w w' where
  base : ∀ p bytes, P p → base p = some bytes → w.fs.file p = some bytes → w'.fs.file p = some bytes
  mine : ∀ p, P p → (who, .create_new p) ∈ w.trace → w'.fs.file p = w.fs.file p

theorem Undisturbed.refl (w : World Who Event) : Undisturbed P base who w w :=
  ⟨⟨List.suffix_rfl, fun _ _ _ h => h⟩, fun _ _ _ _ h => h, fun _ _ _ => rfl⟩

theorem Undisturbed.trans (h : Undisturbed P base who w w') (h' : Undisturbed P base who w' w'') :
    Undisturbed P base who w w'' where
  trace := h.trace.trans h'.trace
  find p node hp hfind := h'.find p node hp (h.find p node hp hfind)
  base p bytes hp hbase hfile := h'.base p bytes hp hbase (h.base p bytes hp hbase hfile)
  mine p hp hmem := (h'.mine p hp (h.trace.mem hmem)).trans (h.mine p hp hmem)

/-- A process among others. What it reads at the paths `P` is final, and so is what it made
once it no longer writes. -/
def sharing (P : Path → Prop) (base : Path → Option Bytes) (final : Path → Bytes → Prop)
    (inv : World Who Event → Prop) (who : Who) : Contract (Calls Who Event) where
  rely _ := Undisturbed P base who
  guar _ _ _ := True
  rest _ _ := True
  inv := inv
  allowed op _ w :=
    (∀ path bytes, op = .read path → P path → w.fs.file path = some bytes → final path bytes) ∧
      ((∀ inode offset bytes, op ≠ .write inode offset bytes) → ∀ path bytes, P path →
        (who, .create_new path) ∈ w.trace → w.fs.file path = some bytes → final path bytes)
  progress := False

/-- The files that were there at the start. -/
def Untouched (P : Path → Prop) (base : Path → Option Bytes) (w : World Who Event) : Prop :=
  ∀ p bytes, P p → base p = some bytes → w.fs.file p = some bytes

theorem Untouched.undisturbed (h : Untouched P base w) (hw : Undisturbed P base who w w') : Untouched P base w' :=
  fun p bytes hp hbase => hw.base p bytes hp hbase (h p bytes hp hbase)

section Keeps

variable {inv A : World Who Event → Prop} {x : Prog (Calls Who Event) ε α} {open_file : Option Nat}

theorem Looks.sharing {op : Op Event} (hA : ∀ w w', A w → Undisturbed P base who w w' → A w') :
    Looks who (sharing P base final inv who) A op where
  stable w w' hw hrely _ := hA w w' hw hrely
  rest _ _ _ := trivial
  progress hprogress := hprogress.elim
  guar _ _ _ := trivial

/-- One call of a sparing program among others. -/
theorem Step.sharing {op : Op Event} {B : op.Reply → World Who Event → Prop} (hop : Op.Spares P R open_file op)
    (hone : ∀ w, inv w → OneName P w.fs) (hA : ∀ w w', A w → Undisturbed P base who w w' → A w')
    (hstep : ∀ w choice r w', A w → inv w → (sharing P base final inv who).allowed op choice w →
      apply who op choice w = some (r, w') → Kept P who open_file op r w w' → inv w' ∧ B r w') :
    Step who (sharing P base final inv who) A op B where
  stable w w' hw hrely _ := hA w w' hw hrely
  rest _ _ _ := trivial
  progress hprogress := hprogress.elim
  step w choice r w' hw hinv hallowed happly :=
    ⟨trivial, hstep w choice r w' hw hinv hallowed happly (hop.kept (hone w hinv) happly)⟩

/-- A sparing program keeps what grows with the file system. -/
theorem Spares.keeps (hx : Spares P R open_file x) (hone : ∀ w, inv w → OneName P w.fs)
    (hinv : ∀ open_file op r w w', Op.Spares P R open_file op → Kept P who open_file op r w w' → A w → inv w → inv w')
    (hA : ∀ w w', A w → Grows P w w' → A w') (hw : A w) :
    Keeps who (sharing P base final inv who) (fun _ => A) x w := by
  induction x generalizing open_file w with
  | ret a => exact hw
  | fail e => exact hw
  | panic => exact hw
  | op op next ih =>
    have hstep : Step who (sharing P base final inv who) A op fun _ => A := by
      refine Step.sharing hx.1 hone (fun w w' hw h => hA w w' hw h.toGrows) fun w choice r w' hw hw' _ _ hkept => ?_
      exact ⟨hinv _ _ _ _ _ hx.1 hkept hw hw', hA _ _ hw hkept.grows⟩
    exact Keeps.op hstep hw fun r w hw _ => ih r (hx.2 r) hw

/-- What a process made is final before its next call that is no write. -/
theorem keeps_of_made {path : Path} {bytes : Bytes} {post : Outcome ε α → World Who Event → Prop}
    (hspares : Spares P R none x) (hpath : P path) (hmem : (who, .create_new path) ∈ w.trace)
    (hfile : w.fs.file path = some bytes)
    (hx : final path bytes ∨ x.head = none → Keeps who (sharing P base final inv who) post x w) :
    Keeps who (sharing P base final inv who) post x w := by
  cases x with
  | ret a => exact hx (.inr rfl)
  | fail e => exact hx (.inr rfl)
  | panic => exact hx (.inr rfl)
  | op op next =>
    intro w' hrely hinv
    refine ⟨trivial, fun hprogress => hprogress.elim, fun choice r w'' hallowed happly => ?_⟩
    have hfinal : final path bytes := by
      refine hallowed.2 ?_ path bytes hpath (hrely.trace.mem hmem) ((hrely.mine path hpath hmem).trans hfile)
      rintro inode offset bytes rfl
      cases hspares.1
    exact (hx (.inl hfinal) w' hrely hinv).2.2 choice r w'' hallowed happly

end Keeps

/-- Programs that have not started on a file system where nothing has happened. -/
structure Unstarted (P : Path → Prop) (R : Event → Prop) (sys : System (Calls Who Event) ε α) : Prop where
  one_name : OneName P sys.state.fs
  trace : sys.state.trace = []
  idle : ∀ who, sys.status who = .idle
  spares : ∀ who, Spares P R none (sys.procs who)

theorem Unstarted.owned (h : Unstarted P R sys) : Owned P R (fun _ => none) sys where
  one_name := h.one_name
  spares who _ := h.spares who
  idle _ _ := rfl
  bound _ _ hheld := by cases hheld
  created _ _ _ hheld := by cases hheld
  once _ _ _ _ hmem := by simp [h.trace] at hmem
  stays _ _ _ hmem := by simp [h.trace] at hmem

theorem Unstarted.fixed (h : Unstarted P R sys) {p : Path} {bytes : Bytes} (hfile : sys.state.fs.file p = some bytes) :
    Fixed sys p bytes := by
  refine ⟨hfile, fun who inode offset bytes hlive => ?_⟩
  rw [h.idle who] at hlive
  cases hlive

variable [DecidableEq Who]

/-- Nobody reads a file at the paths `P` while a live process is writing it. -/
def ReadsWhole (P : Path → Prop) (sys : System (Calls Who Event) ε α) : Action (Calls Who Event) → Prop
  | .act who _ => ∀ path, (sys.procs who).head = some (.read path) → P path → Quiet sys path
  | .crash _ => True

/-- Who runs alone reads nothing that is being written. -/
theorem reads_whole_of_alone {action : Action (Calls Who Event)} (h : System.Alone sys action) : ReadsWhole P sys action := by
  cases action with
  | crash who => trivial
  | act who choice =>
    rintro path hhead hpath other inode offset bytes hlive hwrite _
    by_cases hother : other = who
    · subst hother
      rw [hhead] at hwrite
      cases hwrite
    · rw [h other hother hlive] at hwrite
      cases hwrite

/-- A step that reads what is final, and disturbs nobody. -/
structure Foreseen (P : Path → Prop) (base : Path → Option Bytes) (final : Path → Bytes → Prop)
    (sys : System (Calls Who Event) ε α) (action : Action (Calls Who Event)) : Prop where
  reads : ∀ who choice path bytes, action = .act who choice → (sys.procs who).head = some (.read path) → P path →
    sys.state.fs.file path = some bytes → final path bytes
  made : ∀ who choice path bytes, action = .act who choice →
    (∀ inode offset bytes, (sys.procs who).head ≠ some (.write inode offset bytes)) → P path →
    (who, .create_new path) ∈ sys.state.trace → sys.state.fs.file path = some bytes → final path bytes
  undisturbed : ∀ who choice other sys', action = .act who choice → sys.step action = some sys' → other ≠ who →
    Undisturbed P base other sys.state sys'.state

theorem Foreseen.mono {action : Action (Calls Who Event)} (h : Foreseen P base final sys action)
    (himp : ∀ p bytes, P p → final p bytes → final' p bytes) : Foreseen P base final' sys action where
  reads who choice path bytes haction hhead hpath hfile :=
    himp path bytes hpath (h.reads who choice path bytes haction hhead hpath hfile)
  made who choice path bytes haction hhead hpath hmem hfile :=
    himp path bytes hpath (h.made who choice path bytes haction hhead hpath hmem hfile)
  undisturbed := h.undisturbed

/-- In a run that reads whole files, what is read is what stands there at the end of the run. -/
theorem Unstarted.foreseen (h : Unstarted P R sys) (hreach : System.Reaches (ReadsWhole P) sys last) :
    (∃ held, Owned P R held last) ∧ (∀ p bytes, P p → sys.state.fs.file p = some bytes → Fixed last p bytes) ∧
      System.Reaches (Foreseen P sys.state.fs.file (Fixed last)) sys last := by
  induction hreach with
  | refl => exact ⟨⟨_, h.owned⟩, fun _ _ _ => h.fixed, .refl⟩
  | @tail mid last action _ hcond hstep ih =>
    obtain ⟨⟨held, howned⟩, hbase, hreach⟩ := ih
    have hfixed : ∀ p bytes, P p → Fixed mid p bytes → Fixed last p bytes :=
      fun p bytes hp => howned.fixed hstep hp
    refine ⟨howned.step hstep, fun p bytes hp hfile => hfixed p bytes hp (hbase p bytes hp hfile),
      .tail (hreach.mono fun _ _ hforeseen => hforeseen.mono hfixed) ⟨?_, ?_, ?_⟩ hstep⟩
    · rintro who choice path bytes rfl hhead hpath hfile
      exact hfixed path bytes hpath ⟨hfile, hcond path hhead hpath⟩
    · rintro who choice path bytes rfl hhead hpath hmem hfile
      exact hfixed path bytes hpath ⟨hfile, howned.quiet_of_mem hpath hmem hhead⟩
    · rintro who choice other sys' rfl hstep' hother
      obtain ⟨_, _, _, _, hkept, _⟩ := howned.kept hstep'
      exact ⟨⟨hkept.suffix, hkept.find⟩,
        fun p bytes hp hbytes _ => (howned.fixed hstep' hp (hbase p bytes hp hbytes)).1,
        fun p hp hmem => howned.file_eq hstep' hother hp hmem⟩

/-- An invariant that each program keeps among others holds after every run that reads whole
files. -/
theorem Unstarted.inv_of_reaches {inv : World Who Event → Prop} (h : Unstarted P R sys)
    (hreach : System.Reaches (ReadsWhole P) sys last) (hinv : inv sys.state)
    (hkeeps : ∀ who w, Untouched P sys.state.fs.file w → inv w →
      Keeps who (sharing P sys.state.fs.file (Fixed last) inv who) (fun _ _ => True) (sys.procs who) w) :
    inv last.state := by
  obtain ⟨_, _, hforeseen⟩ := h.foreseen hreach
  let F : Family (Calls Who Event) ε α :=
    { contract := sharing P sys.state.fs.file (Fixed last) inv
      start := fun _ => Untouched P sys.state.fs.file
      post := fun _ _ _ => True }
  have hstable : F.Stable := ⟨fun _ _ => Undisturbed.refl, fun _ _ _ _ _ => Undisturbed.trans, fun _ _ _ _ _ _ => trivial⟩
  have hrespects : F.Respects (Foreseen P sys.state.fs.file (Fixed last)) := by
    refine ⟨fun mid who choice op next _ hcond _ hproc => ⟨?_, fun hop => ?_⟩, ?_⟩
    · rintro path bytes rfl hpath hfile
      exact hcond.reads who choice path bytes rfl (by rw [hproc]; rfl) hpath hfile
    · refine fun path bytes => hcond.made who choice path bytes rfl fun inode offset bytes hhead => ?_
      rw [hproc] at hhead
      exact hop _ _ _ (Option.some.inj hhead)
    · intro mid who choice op next r s' _ hcond hstatus hproc happly _ hinv' other hother
      have hundisturbed := hcond.undisturbed who choice other _ rfl (System.step_act hstatus hproc happly) hother
      exact ⟨hinv', fun _ hstart => hstart.undisturbed hundisturbed, fun _ => hundisturbed⟩
  have hholds : F.Holds sys := fun who =>
    ⟨hinv, fun _ => ⟨fun _ _ _ h => h, fun w => hkeeps who w⟩, fun hlive => by rw [h.idle who] at hlive; cases hlive⟩
  rcases isEmpty_or_nonempty Who with hempty | ⟨⟨who⟩⟩
  · cases hreach with
    | refl => exact hinv
    | @tail mid last action _ _ hstep =>
      cases action with
      | act who => exact hempty.elim who
      | crash who => exact hempty.elim who
  · exact (hholds.reaches hstable hrespects hforeseen who).1

end Rule

end posix
