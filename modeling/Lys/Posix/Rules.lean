import Lys.Posix.Interface

open rust effect

namespace posix

variable {Who Event ε α : Type} {who : Who} {op : Op Event} {choice : Choice} {w w' : World Who Event}

/-- The calls that only look at the file system. -/
def Op.looks : Op Event → Bool
  | .path_exists _ | .is_file _ | .is_dir _ | .read _ | .read_dir _ => true
  | _ => false

/-- The choices without a fault. -/
def Choice.faultless : Choice → Bool
  | .fault | .cut _ => false
  | _ => true

/-- What holds after a call succeeded or failed. -/
def Replied {α W : Type} (ok : α → W → Prop) (failed : IoError → W → Prop) : Except IoError α → W → Prop
  | .ok a => ok a
  | .error e => failed e

section Looks

/-- A call that looks leaves the world as it is. -/
theorem apply_looks (hop : op.looks = true) {r : op.Reply} (h : apply who op choice w = some (r, w')) : w' = w := by
  cases op with
  | path_exists path => exact (World.ask_eq_some h).1
  | is_file path => exact (World.ask_eq_some h).1
  | is_dir path => exact (World.ask_eq_some h).1
  | read path => cases choice <;> cases h <;> rfl
  | read_dir path => exact (World.list_eq_some h).1
  | _ => cases hop

/-- `A` stays true while a program waits for a call that looks. -/
structure Looks (who : Who) (C : Contract (Calls Who Event)) (A : World Who Event → Prop) (op : Op Event) : Prop where
  stable : ∀ w w', A w → C.rely (some op) w w' → C.inv w' → A w'
  rest : ∀ w, A w → C.inv w → C.rest op w
  progress : C.progress → ∀ w, A w → C.inv w →
    ∃ choice r w', C.allowed op choice w ∧ apply who op choice w = some (r, w')
  guar : ∀ w, A w → C.inv w → C.guar op w w

variable {C : Contract (Calls Who Event)} {A : World Who Event → Prop} {post : Outcome ε α → World Who Event → Prop}

theorem Looks.call (h : Looks who C A op) (hop : op.looks = true) {next : op.Reply → Prog (Calls Who Event) ε α}
    (hw : A w) (hnext : ∀ w choice r, A w → C.inv w → C.allowed op choice w → apply who op choice w = some (r, w) →
      Keeps who C post (next r) w) : Keeps who C post (call op >>= next) w := by
  have hstep : Step who C A op fun r w => ∃ choice, A w ∧ C.inv w ∧ C.allowed op choice w ∧
      apply who op choice w = some (r, w) := by
    refine ⟨h.stable, h.rest, h.progress, fun w choice r w' hw hinv hallowed happly => ?_⟩
    obtain rfl := apply_looks hop happly
    exact ⟨h.guar _ hw hinv, hinv, choice, hw, hinv, hallowed, happly⟩
  refine Keeps.op hstep hw fun r w hB _ => ?_
  obtain ⟨choice, hw, hinv, hallowed, happly⟩ := hB
  exact hnext w choice r hw hinv hallowed happly

/-- Whole files. -/
theorem Looks.read {path : Path} (h : Looks who C A (.read path)) {f : IoError → ε}
    {next : Bytes → Prog (Calls Who Event) ε α} (hw : A w)
    (hok : ∀ w bytes choice, A w → C.inv w → C.allowed (.read path) choice w → w.fs.file path = some bytes →
      Keeps who C post (next bytes) w)
    (herr : ∀ w e choice, A w → C.inv w → C.allowed (.read path) choice w →
      (choice.faultless = true → w.fs.file path = none) → post (.failed e) w) :
    Keeps who C post ((fs.read path).map_error f >>= next) w := by
  change Keeps who C post (posix.call (Op.read path) >>= fun r => (Prog.of_except r).map_error f >>= next) w
  refine h.call rfl hw fun w choice r hw hinv hallowed happly => ?_
  cases choice with
  | proceed =>
    obtain ⟨rfl, _⟩ := Prod.mk.inj (Option.some.inj happly)
    cases hread : w.fs.read path with
    | ok bytes => exact hok w bytes _ hw hinv hallowed (Fs.read_eq_ok_iff.mp hread)
    | error e =>
      refine herr w _ _ hw hinv hallowed fun _ => ?_
      cases hfile : w.fs.file path with
      | none => rfl
      | some bytes =>
        rw [Fs.read_eq_ok_iff.mpr hfile] at hread
        cases hread
  | fault =>
    obtain ⟨rfl, _⟩ := Prod.mk.inj (Option.some.inj happly)
    exact herr w _ _ hw hinv hallowed (by simp [Choice.faultless])
  | stores => cases happly
  | lists => cases happly
  | cut => cases happly

end Looks

section Writes

variable {C : Contract (Calls Who Event)} {inode : Nat} {contents : Bytes} {T : Nat → World Who Event → Prop}
  {Q : World Who Event → Prop}

/-- The world after a write stored `count` of the bytes behind `offset`. -/
def World.stored (w : World Who Event) (who : Who) (inode offset : Nat) (contents : Bytes) (count : Nat) :
    World Who Event :=
  ⟨w.fs.write inode offset ((contents.drop offset).take count),
    (who, .write inode offset (contents.drop offset)) :: w.trace⟩

/-- Writing whole contents to an open file: `T` of the number of bytes stored so far, and
`Q` after a failure. -/
structure Writes (who : Who) (C : Contract (Calls Who Event)) (inode : Nat) (contents : Bytes)
    (T : Nat → World Who Event → Prop) (Q : World Who Event → Prop) : Prop where
  stable : ∀ k < contents.length, ∀ w w', T k w → C.rely (some (.write inode k (contents.drop k))) w w' →
    C.inv w' → T k w'
  rest : ∀ k < contents.length, ∀ w, T k w → C.inv w → C.rest (.write inode k (contents.drop k)) w
  progress : C.progress → ∀ k < contents.length, ∀ w, ∃ count, 0 < count ∧ k + count ≤ contents.length ∧
    C.allowed (.write inode k (contents.drop k)) (.stores count) w
  stores : ∀ k count w, T k w → C.inv w → 0 < count → k + count ≤ contents.length →
    C.guar (.write inode k (contents.drop k)) w (w.stored who inode k contents count) ∧
      C.inv (w.stored who inode k contents count) ∧ T (k + count) (w.stored who inode k contents count)
  fails : ∀ k < contents.length, ∀ w, T k w → C.inv w → C.allowed (.write inode k (contents.drop k)) .fault w →
    C.guar (.write inode k (contents.drop k)) w w ∧ Q w

theorem Writes.step (h : Writes who C inode contents T Q) {k : Nat} (hk : k < contents.length) :
    Step who C (T k) (.write inode k (contents.drop k))
      (Replied (fun count w => 0 < count ∧ k + count ≤ contents.length ∧ T (k + count) w) fun _ => Q) := by
  refine ⟨h.stable k hk, h.rest k hk, fun hprogress w _ _ => ?_, fun w choice r w' hw hinv hallowed happly => ?_⟩
  · obtain ⟨count, hpos, hle, hallowed⟩ := h.progress hprogress k hk w
    refine ⟨_, _, _, hallowed, if_pos ⟨hpos, ?_⟩⟩
    rw [List.length_drop]
    omega
  · obtain ⟨e, rfl, rfl, rfl⟩ | ⟨count, _, hpos, hle, rfl, rfl⟩ := World.write_eq_some happly
    · obtain ⟨hguar, hQ⟩ := h.fails k hk w' hw hinv hallowed
      exact ⟨hguar, hinv, hQ⟩
    · rw [List.length_drop] at hle
      obtain ⟨hguar, hinv', hT⟩ := h.stores k count w hw hinv hpos (by omega)
      exact ⟨hguar, hinv', hpos, by omega, hT⟩

theorem Writes.write_all (h : Writes who C inode contents T Q) {post : Outcome IoError Unit → World Who Event → Prop}
    (hdone : ∀ w, T contents.length w → C.inv w → post (.done ()) w)
    (hfail : ∀ w e, Q w → C.inv w → post (.failed e) w) {k fuel : Nat} {w : World Who Event}
    (hk : k ≤ contents.length) (hfuel : contents.length ≤ k + fuel) (hw : T k w) (hinv : C.inv w) :
    Keeps who C post (fs.write_all inode fuel k (contents.drop k)) w := by
  induction fuel generalizing k w with
  | zero =>
    obtain rfl : k = contents.length := by omega
    rw [List.drop_length]
    exact hdone w hw hinv
  | succ fuel ih =>
    cases hrest : contents.drop k with
    | nil =>
      obtain rfl : k = contents.length := by
        rw [List.drop_eq_nil_iff] at hrest
        omega
      exact hdone w hw hinv
    | cons byte bytes =>
      have hlt : k < contents.length := by
        rw [← Nat.not_le, ← List.drop_eq_nil_iff, hrest]
        simp
      have hstep := h.step hlt
      rw [hrest] at hstep
      refine Keeps.op hstep hw fun r w hB hinv => ?_
      cases r with
      | error e => exact hfail w e hB hinv
      | ok count =>
        obtain ⟨_, hle, hT⟩ := hB
        change Keeps who C post (fs.write_all inode fuel (k + count) ((byte :: bytes).drop count)) w
        rw [← hrest, List.drop_drop]
        exact ih hle (by omega) hT hinv

/-- A whole file: it is opened by a step that empties it, and then written. -/
theorem Writes.write {A : World Who Event → Prop} {path : Path} {T : Nat → Nat → World Who Event → Prop}
    (hcreate : Step who C A (.create path) (Replied (T · 0) fun _ => Q))
    (hwrites : ∀ inode, Writes who C inode contents (T inode) Q)
    {post : Outcome IoError Unit → World Who Event → Prop}
    (hdone : ∀ inode w, T inode contents.length w → C.inv w → post (.done ()) w)
    (hfail : ∀ w e, Q w → C.inv w → post (.failed e) w) {w : World Who Event} (hw : A w) :
    Keeps who C post (fs.write path contents) w := by
  refine Keeps.op hcreate hw fun r w hB hinv => ?_
  cases r with
  | error e => exact hfail w e hB hinv
  | ok inode => exact (hwrites inode).write_all (hdone inode) hfail (Nat.zero_le _) (by omega) hB hinv

end Writes

section Solo

/-- A process alone, under every choice, or without faults and through to its end. -/
def solo (inv : World Who Event → Prop) (faultless : Bool) : Contract (Calls Who Event) :=
  .alone inv (fun _ choice _ => faultless = true → choice.faultless = true) (faultless = true)

variable {inv : World Who Event → Prop} {faultless : Bool} {A : World Who Event → Prop}

/-- Every call has an outcome without a fault. -/
theorem exists_faultless (who : Who) (hop : ∀ inode offset, op ≠ .write inode offset []) (w : World Who Event) :
    ∃ choice r w', choice.faultless = true ∧ apply who op choice w = some (r, w') := by
  cases op with
  | read_dir path =>
    cases hnames : w.fs.read_dir path with
    | ok names => exact ⟨.lists names, _, _, rfl, by simp only [apply, World.list, hnames]; exact if_pos (.refl _)⟩
    | error e => exact ⟨.proceed, _, _, rfl, by simp only [apply, World.list, hnames]; rfl⟩
  | write inode offset bytes =>
    have hpos : 0 < bytes.length := by
      rw [List.length_pos_iff]
      rintro rfl
      exact hop inode offset rfl
    exact ⟨.stores bytes.length, _, _, rfl, if_pos ⟨hpos, le_rfl⟩⟩
  | _ => exact ⟨.proceed, _, _, rfl, rfl⟩

theorem Step.solo {B : op.Reply → World Who Event → Prop} (hop : ∀ inode offset, op ≠ .write inode offset [])
    (hstep : ∀ w choice r w', A w → inv w → (faultless = true → choice.faultless = true) →
      apply who op choice w = some (r, w') → inv w' ∧ B r w') :
    Step who (solo inv faultless) A op B := by
  refine Step.alone (fun hfaultless w _ => ?_) hstep
  obtain ⟨choice, r, w', hchoice, happly⟩ := exists_faultless who hop w
  exact ⟨choice, r, w', fun _ => hchoice, happly⟩

theorem Looks.solo (hop : op.looks = true) (A : World Who Event → Prop) : Looks who (solo inv faultless) A op where
  stable _ _ hw hrely _ := hrely ▸ hw
  rest _ _ _ := trivial
  progress hfaultless w _ _ := by
    obtain ⟨choice, r, w', hchoice, happly⟩ := @exists_faultless _ _ op who (by rintro _ _ rfl; cases hop) w
    exact ⟨choice, r, w', fun _ => hchoice, happly⟩
  guar _ _ _ := trivial

theorem Writes.solo {inode : Nat} {contents : Bytes} {T : Nat → World Who Event → Prop} {Q : World Who Event → Prop}
    (hstores : ∀ k count w, T k w → inv w → 0 < count → k + count ≤ contents.length →
      inv (w.stored who inode k contents count) ∧ T (k + count) (w.stored who inode k contents count))
    (hfails : faultless = false → ∀ k < contents.length, ∀ w, T k w → inv w → Q w) :
    Writes who (solo inv faultless) inode contents T Q where
  stable _ _ _ _ hw hrely _ := hrely ▸ hw
  rest _ _ _ _ _ := trivial
  progress _ k hk _ := ⟨contents.length - k, by omega, by omega, fun _ => rfl⟩
  stores k count w hw hinv hpos hle := ⟨trivial, hstores k count w hw hinv hpos hle⟩
  fails k hk w hw hinv hallowed := by
    refine ⟨trivial, hfails ?_ k hk w hw hinv⟩
    cases faultless with
    | false => rfl
    | true => cases hallowed rfl

/-- Alone and without faults, a program comes to an end and every end is as `post` says. -/
def Completes (who : Who) (post : Outcome ε α → World Who Event → Prop) (x : Prog (Calls Who Event) ε α)
    (w : World Who Event) : Prop := Keeps who (solo (fun _ => True) true) post x w

/-- Some faultless run ends. -/
theorem Completes.exists_run {post : Outcome ε α → World Who Event → Prop} {x : Prog (Calls Who Event) ε α}
    {w : World Who Event} (h : Completes who post x w) :
    ∃ choices, (∀ choice ∈ choices, choice.faultless = true) ∧
      ∃ out, (run who x choices w).outcome = some out ∧ post out (run who x choices w).state := by
  induction x generalizing w with
  | ret a => exact ⟨[], by simp, _, rfl, h⟩
  | fail e => exact ⟨[], by simp, _, rfl, h⟩
  | panic => exact ⟨[], by simp, _, rfl, h⟩
  | op o next ih =>
    obtain ⟨_, hprogress, hstep⟩ := h w rfl trivial
    obtain ⟨choice, r, w', hchoice, happly⟩ := hprogress rfl
    obtain ⟨choices, hchoices, out, hout, hpost⟩ := ih r (hstep choice r w' hchoice happly).2.2
    have hrun : run who (.op o next) (choice :: choices) w = run who (next r) choices w' := by
      rw [run, happly]
    refine ⟨choice :: choices, ?_, out, by rw [hrun, hout], by rw [hrun]; exact hpost⟩
    rintro _ (_ | ⟨_, hmem⟩)
    · exact hchoice rfl
    · exact hchoices _ hmem

/-- Alone, a program ends in what holds at every end. -/
theorem keeps_of_forall {post : Outcome ε α → World Who Event → Prop} (h : ∀ out w, post out w)
    (x : Prog (Calls Who Event) ε α) (w : World Who Event) : Keeps who (solo (fun _ => True) false) post x w := by
  induction x generalizing w with
  | ret a => exact h _ _
  | fail e => exact h _ _
  | panic => exact h _ _
  | op o next ih =>
    intro w _ _
    refine ⟨trivial, ?_, fun choice r w' _ _ => ⟨trivial, trivial, ih r w'⟩⟩
    rintro ⟨⟩

/-- What a process alone keeps, its runs keep. -/
theorem run_solo {post : Outcome ε α → World Who Event → Prop} {x : Prog (Calls Who Event) ε α}
    {choices : List Choice} {w : World Who Event} (h : Keeps who (solo inv false) post x w) (hinv : inv w) :
    inv (run who x choices w).state ∧
      ∀ out, (run who x choices w).outcome = some out → post out (run who x choices w).state := by
  refine h.run (fun _ _ => rfl) hinv ?_
  rintro choice _ o w ⟨⟩

end Solo

end posix
