import Lys.Cli.Seal
import Lys.Posix.Runs
import Lys.Posix.Solo

open rust effect posix

namespace lys

section Files

variable [RustFmt] {Who Event : Type} {who : Who} {w : World Who Event} {choices : List Choice} {path : Path}
  {contents : Bytes} {what : String} {P : Op Event → Choice → World Who Event → Prop}
  {R : List (Who × Op Event) → Prop} {F G Q : Prop} {ended : Outcome CliError Unit}

/-- How `write_file` ends, as `std::fs::write` does. -/
theorem run_write_file (h : Forgives who P R F G) (hcreate : ∀ choice, P (.create path) choice w ↔ Q)
    (hopened : R ((who, .create path) :: w.trace))
    (hout : (run who (write_file path contents what) choices w).outcome = some ended) :
    (∃ e, ended = .failed e ∧ (run who (write_file path contents what) choices w).state = w ∧
      (Meets who P (write_file path contents what) choices w ↔ Q)) ∨
    (∃ e inode k, ended = .failed e ∧
      Overwritten who path w inode (contents.take k) (run who (write_file path contents what) choices w).state ∧
      (Meets who P (write_file path contents what) choices w ↔ Q ∧ F)) ∨
    ∃ inode, ended = .done () ∧
      Overwritten who path w inode contents (run who (write_file path contents what) choices w).state ∧
      (Meets who P (write_file path contents what) choices w ↔ Q ∧ (contents ≠ [] → G)) := by
  rw [write_file, run_map_error] at hout ⊢
  rw [meets_map_error]
  obtain ⟨first, hfirst, rfl⟩ := Option.map_eq_some_iff.mp hout
  obtain ⟨e, rfl, hstate, hmeets⟩ | ⟨e, inode, k, rfl, htorn, hmeets⟩ | ⟨inode, rfl, hfull, hmeets⟩ :=
    h.run_write hcreate hopened hfirst
  · exact .inl ⟨_, rfl, hstate, hmeets⟩
  · exact .inr (.inl ⟨_, inode, k, rfl, htorn, hmeets⟩)
  · exact .inr (.inr ⟨inode, rfl, hfull, hmeets⟩)

omit [RustFmt] in
/-- A printed line changes no file. -/
theorem println_keeps {α : Type} {faultless : Bool} {post : Outcome CliError α → World Who Console → Prop} {line : String}
    {next : Process Who Console α} {w : World Who Console}
    (hnext : ∀ w', w'.fs = w.fs → Keeps who (solo (fun _ => True) faultless) post next w') :
    Keeps who (solo (fun _ => True) faultless) post (println line >>= fun _ => next) w := by
  have hprint : Step who (solo (fun _ => True) faultless) (· = w) (.record (.stdout line)) fun _ w' => w'.fs = w.fs := by
    refine Step.solo (by simp) fun w₁ choice r w' hw₁ _ _ happly => ⟨trivial, ?_⟩
    obtain ⟨_, rfl⟩ := Prod.mk.inj (Option.some.inj happly)
    rw [hw₁]
  exact Keeps.op hprint rfl fun _ w' hw' _ => hnext w' hw'

omit [RustFmt] in
/-- A last line is printed. -/
theorem println_ends {faultless : Bool} {post : Outcome CliError Unit → World Who Console → Prop} {line : String}
    {w : World Who Console} (h : ∀ w', w'.fs = w.fs → post (.done ()) w') :
    Keeps who (solo (fun _ => True) faultless) post (println line) w :=
  @println_keeps _ _ _ _ _ _ (.ret ()) _ h

end Files

section Outputs

variable {Who : Type} {who : Who} {w : World Who Console} {choices : List Choice} {payload out attestation_out : Path}
  {recipient : U8Array 32} {attestation : Attestation} {envelope_json : Bytes} {ended : Outcome CliError Unit}
  {second : Except CliError Unit → Process Who Console Unit}

/-- A step of `lys seal` behind `start` that leaves it all or nothing: no write fails, and the
attestation is not written to the envelope's file. With one path for both options it is the other
way round once the path was opened again: a write may fail, and none stores all that is left. -/
structure Intact (start : World Who Console) (out attestation_out : Path) (op : Op Console) (choice : Choice)
    (w : World Who Console) : Prop where
  write : ∀ inode offset bytes, op = .write inode offset bytes → choice = .fault →
    out = attestation_out ∧ opened out start.trace + 2 ≤ opened out w.trace
  create : op = .create attestation_out → out ≠ attestation_out → w.fs.find attestation_out ≠ w.fs.find out
  whole : ∀ inode offset bytes, op = .write inode offset bytes → choice = .stores bytes.length →
    out = attestation_out → opened out w.trace < opened out start.trace + 2

theorem intact_write_iff {start w : World Who Console} {out attestation_out : Path} {inode offset : Nat} {bytes : Bytes}
    {choice : Choice} : Intact start out attestation_out (.write inode offset bytes) choice w ↔
      (choice = .fault → out = attestation_out ∧ opened out start.trace + 2 ≤ opened out w.trace) ∧
        (choice = .stores bytes.length → out = attestation_out → opened out w.trace < opened out start.trace + 2) := by
  refine ⟨fun h => ⟨h.write _ _ _ rfl, h.whole _ _ _ rfl⟩, fun ⟨hfault, hwhole⟩ => ⟨fun _ _ _ _ => hfault, fun hop => ?_, ?_⟩⟩
  · cases hop
  · rintro _ _ _ ⟨⟩
    exact hwhole

theorem intact_create_iff {start w : World Who Console} {out attestation_out path : Path} {choice : Choice} :
    Intact start out attestation_out (.create path) choice w ↔
      (path = attestation_out → out ≠ attestation_out → w.fs.find attestation_out ≠ w.fs.find out) := by
  refine ⟨fun h hpath => h.create (congrArg Op.create hpath), fun h => ⟨fun _ _ _ hop => ?_, fun hop => ?_, fun _ _ _ hop => ?_⟩⟩
  · cases hop
  · exact h (Op.create.inj hop)
  · cases hop

/-- No deletion fails. -/
def CleansUp (op : Op Console) (choice : Choice) (_ : World Who Console) : Prop :=
  ∀ path, op = .remove_file path → choice ≠ .fault

instance (op : Op Console) (choice : Choice) (w : World Who Console) : Decidable (CleansUp op choice w) :=
  match op with
  | .remove_file path => decidable_of_iff (choice ≠ .fault) ⟨fun h _ _ => h, fun h => h path rfl⟩
  | .path_exists _ | .is_file _ | .is_dir _ | .read _ | .read_dir _ | .mkdir _ | .create_new _ | .create _ | .write _ _ _
  | .rename _ _ | .hard_link _ _ | .set_permissions _ | .record _ => isTrue nofun

/-- How the outputs of `lys seal` end, and what that takes for every step to be intact. -/
inductive OutputsEnd (who : Who) (out attestation_out : Path) (envelope_json attestation_bytes : Bytes)
    (w : World Who Console) : Outcome CliError Unit → World Who Console → Prop → Prop where
  | untouched {e : CliError} {intact : Prop} (h : intact) :
    OutputsEnd who out attestation_out envelope_json attestation_bytes w (.failed e) w intact
  | torn {e : CliError} {inode k : Nat} {w' : World Who Console} {intact : Prop}
    (henvelope : Overwritten who out w inode (envelope_json.take k) w') (h : ¬ intact) :
    OutputsEnd who out attestation_out envelope_json attestation_bytes w (.failed e) w' intact
  | unattested {e : CliError} {inode : Nat} {w₁ : World Who Console} {fs : Fs} {intact : Prop}
    (henvelope : Overwritten who out w inode envelope_json w₁) (hremoved : w₁.fs.remove_file out = .ok fs)
    (h : intact ↔ (out ≠ attestation_out → w₁.fs.find attestation_out ≠ w₁.fs.find out)) :
    OutputsEnd who out attestation_out envelope_json attestation_bytes w (.failed e)
      ⟨fs, (who, .remove_file out) :: w₁.trace⟩ intact
  | half_attested {e : CliError} {inode inode' k : Nat} {w₁ w₂ : World Who Console} {fs : Fs} {intact : Prop}
    (henvelope : Overwritten who out w inode envelope_json w₁)
    (hattestation : Overwritten who attestation_out w₁ inode' (attestation_bytes.take k) w₂)
    (hremoved : w₂.fs.remove_file out = .ok fs) (h : intact ↔ out = attestation_out) :
    OutputsEnd who out attestation_out envelope_json attestation_bytes w (.failed e)
      ⟨fs, (who, .remove_file out) :: w₂.trace⟩ intact
  | complete {inode inode' : Nat} {w₁ w₂ w' : World Who Console} {intact : Prop}
    (henvelope : Overwritten who out w inode envelope_json w₁)
    (hattestation : Overwritten who attestation_out w₁ inode' attestation_bytes w₂) (hprinted : w'.fs = w₂.fs)
    (h : intact ↔ out ≠ attestation_out ∧ w₁.fs.find attestation_out ≠ w₁.fs.find out) :
    OutputsEnd who out attestation_out envelope_json attestation_bytes w (.done ()) w' intact

/-- The envelope is deleted after the attestation could not be written. -/
theorem run_cleanup {e : CliError} {inode : Nat} {third : Except IoError Unit → Process Who Console Unit}
    (hremoved : third (.ok ()) = .fail e) (hfind : w.fs.find out = some (.file inode))
    (hout : (run who ((fs.remove_file out).attempt >>= third) choices w).outcome = some ended)
    (hcleanup : Meets who CleansUp ((fs.remove_file out).attempt >>= third) choices w) :
    ∃ fs', w.fs.remove_file out = .ok fs' ∧ ended = .failed e ∧
      (run who ((fs.remove_file out).attempt >>= third) choices w).state = ⟨fs', (who, .remove_file out) :: w.trace⟩ := by
  obtain ⟨first, hfirst⟩ := exists_of_run_bind hout
  have hmeets := (meets_bind.mp hcleanup).1
  rw [meets_attempt] at hmeets
  have hattempt := hfirst
  rw [run_attempt] at hattempt
  obtain ⟨removed, hrun, rfl⟩ := Option.map_eq_some_iff.mp hattempt
  obtain ⟨fs', hfs', rfl, hstate⟩ := run_remove_file hfind (fun choice h => h out rfl) hmeets hrun
  rw [run_bind_of_done hfirst, hremoved, run_fail] at hout ⊢
  refine ⟨fs', hfs', (Option.some.inj hout).symm, ?_⟩
  rw [run_attempt]
  exact hstate

/-- What `lys seal` does behind an attestation that could not be written. -/
def Cleanup (op : Op Console) : Prop := (∃ path, op = .remove_file path) ∨ ∃ line, op = .record (.stderr line)

/-- What `lys seal` does behind both outputs. -/
def Printing (op : Op Console) : Prop := ∃ line, op = .record (.stdout line)

/-- What follows the attempt to write the attestation. -/
structure Follows (who : Who) (out : Path) (second : Except CliError Unit → Process Who Console Unit) : Prop where
  failed : ∀ e, ∃ third : Except IoError Unit → Process Who Console Unit,
    second (.error e) = (fs.remove_file out).attempt >>= third ∧ third (.ok ()) = .fail e
  cleans : ∀ e, Performs (I := Calls Who Console) Cleanup (second (.error e))
  printing : Performs (I := Calls Who Console) Printing (second (.ok ()))
  done : ∀ w, Keeps who (solo (fun _ => True) false) (fun out w' => out = .done () ∧ w'.fs = w.fs) (second (.ok ())) w

/-- Cleaning up deletes the envelope, and is intact. -/
theorem Follows.cleanup {e : CliError} {inode : Nat} (h : Follows who out second)
    (hfind : w.fs.find out = some (.file inode)) (hout : (run who (second (.error e)) choices w).outcome = some ended)
    (hcleanup : Meets who CleansUp (second (.error e)) choices w) :
    (∀ start attestation_out, Meets who (Intact start out attestation_out) (second (.error e)) choices w) ∧
      ∃ fs', w.fs.remove_file out = .ok fs' ∧ ended = .failed e ∧
        (run who (second (.error e)) choices w).state = ⟨fs', (who, .remove_file out) :: w.trace⟩ := by
  constructor
  · refine fun _ _ => (h.cleans e).meets fun op hop _ _ => ?_
    obtain ⟨path, rfl⟩ | ⟨line, rfl⟩ := hop <;> exact ⟨nofun, nofun, nofun⟩
  · obtain ⟨third, hthird, hremoved⟩ := h.failed e
    rw [hthird] at hout hcleanup ⊢
    exact run_cleanup hremoved hfind hout hcleanup

/-- Printing is intact. -/
theorem Follows.meets_ok (h : Follows who out second) (start : World Who Console) :
    Meets who (Intact start out attestation_out) (second (.ok ())) choices w :=
  h.printing.meets fun op ⟨_, hop⟩ _ _ => by
    rw [hop]
    exact ⟨nofun, nofun, nofun⟩

variable [RustFmt] [IoErrorText]

/-- The envelope and the attestation are written, and what comes then opens nothing for writing. -/
theorem exists_seal_outputs_eq (who : Who) (payload out attestation_out : Path) (recipient : U8Array 32)
    (attestation : Attestation) (envelope_json : Bytes) : ∃ second : Except CliError Unit → Process Who Console Unit,
    seal_outputs payload out attestation_out recipient attestation envelope_json =
      (write_file out envelope_json "sealed envelope file" >>= fun _ =>
        (write_file attestation_out attestation.to_cose_bytes "seal attestation file").attempt >>= second) ∧
    Follows who out second := by
  refine ⟨_, rfl, fun e => ⟨_, rfl, rfl⟩, fun e => ⟨.inl ⟨_, rfl⟩, fun removed => ?_⟩, ?_, fun w => ?_⟩
  · cases removed with
    | error cleanup => exact ⟨.inr ⟨_, rfl⟩, fun _ => trivial⟩
    | ok u => trivial
  · refine ⟨⟨_, rfl⟩, fun _ => ⟨⟨_, rfl⟩, fun _ => ⟨⟨_, rfl⟩, fun _ => ?_⟩⟩⟩
    exact ⟨⟨_, rfl⟩, fun _ => ⟨⟨_, rfl⟩, fun _ => trivial⟩⟩
  · refine println_keeps fun w₁ h₁ => println_keeps fun w₂ h₂ => println_keeps fun w₃ h₃ => println_keeps fun w₄ h₄ =>
      println_ends fun w₅ h₅ => ⟨rfl, ?_⟩
    rw [h₅, h₄, h₃, h₂, h₁]

omit [IoErrorText] in
/-- How the attestation ends behind a written envelope. -/
theorem attestation_end {w₁ : World Who Console} {inode : Nat} (henvelope : Overwritten who out w inode envelope_json w₁)
    (hfollows : Follows who out second)
    (hout : (run who ((write_file attestation_out attestation.to_cose_bytes "seal attestation file").attempt >>= second)
      choices w₁).outcome = some ended)
    (hcleanup : Meets who CleansUp
      ((write_file attestation_out attestation.to_cose_bytes "seal attestation file").attempt >>= second) choices w₁) :
    OutputsEnd who out attestation_out envelope_json attestation.to_cose_bytes w ended
      (run who ((write_file attestation_out attestation.to_cose_bytes "seal attestation file").attempt >>= second)
        choices w₁).state
      (Meets who (Intact w out attestation_out)
        ((write_file attestation_out attestation.to_cose_bytes "seal attestation file").attempt >>= second) choices w₁) := by
  have hforgives : Forgives who (Intact w out attestation_out)
      (fun trace => out = attestation_out → opened out w.trace + 2 ≤ opened out trace) (out = attestation_out)
      (out ≠ attestation_out) := by
    refine ⟨fun inode offset bytes choice w' hw' => intact_write_iff.trans ⟨?_, ?_⟩,
      fun inode offset bytes trace h hpaths => ?_⟩
    · rintro ⟨hfault, hwhole⟩
      exact ⟨fun hchoice => (hfault hchoice).1, fun hchoice hpaths => absurd (hw' hpaths) (Nat.not_le.mpr (hwhole hchoice hpaths))⟩
    · rintro ⟨hfault, hwhole⟩
      exact ⟨fun hchoice => ⟨hfault hchoice, hw' (hfault hchoice)⟩, fun hchoice hpaths => absurd hpaths (hwhole hchoice)⟩
    · simpa [opened] using h hpaths
  have hcreate : ∀ choice, Intact w out attestation_out (.create attestation_out) choice w₁ ↔
      (out ≠ attestation_out → w₁.fs.find attestation_out ≠ w₁.fs.find out) := fun choice =>
    intact_create_iff.trans (forall_prop_of_true rfl)
  have hopened : out = attestation_out → opened out w.trace + 2 ≤ opened out ((who, .create attestation_out) :: w₁.trace) := by
    rintro rfl
    have hlt := henvelope.opened_lt
    simp only [opened, List.countP_cons, decide_true, if_true] at hlt ⊢
    omega
  have hartifact : attestation.to_cose_bytes ≠ [] := List.cons_ne_nil _ _
  obtain ⟨reply, hreply⟩ := exists_of_run_bind hout
  have hattempt := hreply
  rw [run_attempt] at hattempt
  obtain ⟨written, hwritten, rfl⟩ := Option.map_eq_some_iff.mp hattempt
  -- what comes behind the attempt starts in the state that the writing left
  have hgo : ∀ r, (written.attempt : Outcome CliError (Except CliError Unit)) = .done r → ∃ rest,
      run who ((write_file attestation_out attestation.to_cose_bytes "seal attestation file").attempt >>= second) choices w₁ =
        run who (second r) rest
          (run who (write_file attestation_out attestation.to_cose_bytes "seal attestation file") choices w₁).state ∧
      ∀ P, Meets who P ((write_file attestation_out attestation.to_cose_bytes "seal attestation file").attempt >>= second)
          choices w₁ ↔
        Meets who P (write_file attestation_out attestation.to_cose_bytes "seal attestation file") choices w₁ ∧
          Meets who P (second r) rest
            (run who (write_file attestation_out attestation.to_cose_bytes "seal attestation file") choices w₁).state := by
    intro r hr
    rw [hr] at hreply
    rw [run_bind_of_done hreply]
    refine ⟨_, by rw [run_attempt]; rfl, fun P => ?_⟩
    rw [meets_bind_of_done hreply, meets_attempt, run_attempt]
    rfl
  obtain ⟨e, rfl, hstate, hmeets⟩ | ⟨e, inode', k, rfl, htorn, hmeets⟩ | ⟨inode', rfl, hfull, hmeets⟩ :=
    run_write_file hforgives hcreate hopened hwritten
  · obtain ⟨rest, hrun, hiff⟩ := hgo _ rfl
    rw [hiff, hstate] at hcleanup ⊢
    rw [hrun, hstate] at hout ⊢
    obtain ⟨hintact, fs', hfs', rfl, hend⟩ := hfollows.cleanup henvelope.find hout hcleanup.2
    rw [hend]
    exact .unattested henvelope hfs' ((and_iff_left (hintact _ _)).trans hmeets)
  · obtain ⟨rest, hrun, hiff⟩ := hgo _ rfl
    rw [hiff] at hcleanup ⊢
    rw [hrun] at hout ⊢
    obtain ⟨inode'', hfind⟩ : ∃ inode'', (run who (write_file attestation_out attestation.to_cose_bytes
        "seal attestation file") choices w₁).state.fs.find out = some (.file inode'') := by
      by_cases hpaths : out = attestation_out
      · exact ⟨inode', hpaths ▸ htorn.find⟩
      · exact ⟨inode, (htorn.find_eq out hpaths).trans henvelope.find⟩
    obtain ⟨hintact, fs', hfs', rfl, hend⟩ := hfollows.cleanup hfind hout hcleanup.2
    rw [hend]
    refine .half_attested henvelope htorn hfs' ((and_iff_left (hintact _ _)).trans (hmeets.trans (and_iff_right_of_imp ?_)))
    exact fun hpaths hne => absurd hpaths hne
  · obtain ⟨rest, hrun, hiff⟩ := hgo _ rfl
    rw [hiff]
    rw [hrun] at hout ⊢
    obtain ⟨rfl, hfs⟩ := (run_solo (hfollows.done _) trivial).2 _ hout
    refine .complete henvelope hfull hfs ?_
    rw [and_iff_left (hfollows.meets_ok w), hmeets, forall_prop_of_true hartifact, and_comm]
    exact and_congr_right fun hpaths => forall_prop_of_true hpaths

/-- How the outputs of `lys seal` end when what is to be deleted is deleted. -/
theorem outputs_end (hout : (run who (seal_outputs payload out attestation_out recipient attestation envelope_json)
      choices w).outcome = some ended)
    (hcleanup : Meets who CleansUp (seal_outputs payload out attestation_out recipient attestation envelope_json) choices w) :
    OutputsEnd who out attestation_out envelope_json attestation.to_cose_bytes w ended
      (run who (seal_outputs payload out attestation_out recipient attestation envelope_json) choices w).state
      (Meets who (Intact w out attestation_out)
        (seal_outputs payload out attestation_out recipient attestation envelope_json) choices w) := by
  -- the path was not opened again yet
  have hforgives : Forgives who (Intact w out attestation_out)
      (fun trace => opened out trace < opened out w.trace + 2) False True := by
    refine ⟨fun inode offset bytes choice w' hw' => intact_write_iff.trans ⟨?_, ?_⟩, fun inode offset bytes trace h => ?_⟩
    · rintro ⟨hfault, _⟩
      exact ⟨fun hchoice => absurd (hfault hchoice).2 (Nat.not_le.mpr hw'), fun _ => trivial⟩
    · rintro ⟨hfault, _⟩
      exact ⟨fun hchoice => (hfault hchoice).elim, fun _ _ => hw'⟩
    · simpa [opened] using h
  have hcreate : ∀ choice, Intact w out attestation_out (.create out) choice w ↔ True := fun choice =>
    iff_true_intro (intact_create_iff.mpr fun h hpaths => absurd h hpaths)
  have hopened : opened out ((who, .create out) :: w.trace) < opened out w.trace + 2 := by
    simp [opened]
  obtain ⟨second, hsecond, hfollows⟩ :=
    exists_seal_outputs_eq who payload out attestation_out recipient attestation envelope_json
  rw [hsecond] at hout hcleanup ⊢
  obtain ⟨first, hfirst⟩ := exists_of_run_bind hout
  obtain ⟨e, rfl, hstate, hmeets⟩ | ⟨e, inode, k, rfl, htorn, hmeets⟩ | ⟨inode, rfl, hfull, hmeets⟩ :=
    run_write_file hforgives hcreate hopened hfirst
  · rw [run_bind_of_failed hfirst] at hout ⊢
    rw [meets_bind_of_failed hfirst, ← Option.some.inj hout, hstate]
    exact .untouched (hmeets.mpr trivial)
  · rw [run_bind_of_failed hfirst] at hout ⊢
    rw [meets_bind_of_failed hfirst, ← Option.some.inj hout]
    exact .torn htorn fun h => (hmeets.mp h).2
  · rw [run_bind_of_done hfirst] at hout ⊢
    rw [meets_bind_of_done hfirst] at hcleanup ⊢
    rw [and_iff_right (hmeets.mpr ⟨trivial, fun _ => trivial⟩)]
    exact attestation_end hfull hfollows hout hcleanup.2

end Outputs

end lys
