import Lys.Cli.Log
import Lys.Cli.Reference
import Lys.Keys.Generate
import Lys.Posix.Publish

open rust effect posix

namespace lys

variable {Who Event : Type} {key p : Path}

/-- How a caller obtains an identity. -/
inductive KeyCall where
  | load
  | load_or_generate (pid : UInt32) (unique : UInt64) (seed : U8Array 32)

namespace KeyCall

/-- The process and the counter in the name of a temporary file. -/
def id : KeyCall → Option (UInt32 × UInt64)
  | .load => none
  | .load_or_generate pid unique _ => some (pid, unique)

/-- The seed that a caller may publish. -/
def seed : KeyCall → Option (U8Array 32)
  | .load => none
  | .load_or_generate _ _ seed => some seed

def temp (key : Path) (call : KeyCall) : Option Path := do
  let name ← file_name key
  let (pid, unique) ← call.id
  return key.dropLast ++ [tmp_name name pid unique]

end KeyCall

/-- The temporary names of some callers. -/
def temps (calls : Who → KeyCall) (key : Path) (who : Who) : Option Path := (calls who).temp key

/-- The seeds of some callers. -/
def IsSeed (calls : Who → KeyCall) (bytes : Bytes) : Prop := ∃ who seed, (calls who).seed = some seed ∧ bytes = seed.as_slice

section Names

variable {call call' : KeyCall} {calls : Who → KeyCall} {name : Name}

theorem temp_eq_some (h : call.temp key = some p) : ∃ name pid unique, file_name key = some name ∧
    call.id = some (pid, unique) ∧ p = key.dropLast ++ [tmp_name name pid unique] := by
  obtain ⟨name, hname, h⟩ := Option.bind_eq_some_iff.mp h
  obtain ⟨⟨pid, unique⟩, hid, h⟩ := Option.bind_eq_some_iff.mp h
  exact ⟨name, pid, unique, hname, hid, (Option.some.inj h).symm⟩

theorem key_eq_of_file_name (h : file_name key = some name) : key = key.dropLast ++ [name] := by
  obtain ⟨hlast, _⟩ := Option.filter_eq_some_iff.mp h
  obtain ⟨front, rfl⟩ := List.getLast?_eq_some_iff.mp hlast
  rw [List.dropLast_concat]

theorem tmp_name_ne {pid : UInt32} {unique : UInt64} : tmp_name name pid unique ≠ name := by
  intro h
  have hnil := List.append_cancel_left (h.trans (List.append_nil name).symm)
  rw [List.cons_append, List.cons_append, as_bytes_cons] at hnil
  exact absurd (List.append_eq_nil_iff.mp hnil).1 (by decide)

theorem temp_ne (h : call.temp key = some p) : p ≠ key := by
  obtain ⟨name, pid, unique, hname, _, rfl⟩ := temp_eq_some h
  intro heq
  rw [key_eq_of_file_name hname, List.dropLast_concat] at heq
  exact tmp_name_ne (List.singleton_inj.mp (List.append_cancel_left heq))

/-- The directories above a key are neither the key nor a temporary name. -/
theorem not_temp_of_prefix {q : Path} (hkey : key ≠ []) (hq : q <+: key.dropLast) : q ≠ key ∧ ¬ Temp (temps calls key) q := by
  have hlength : q.length < key.length := by
    have hle := hq.length_le
    have hpos := List.length_pos_iff.mpr hkey
    rw [List.length_dropLast] at hle
    omega
  refine ⟨fun heq => by rw [heq] at hlength; omega, ?_⟩
  rintro ⟨who, hwho⟩
  obtain ⟨name, pid, unique, _, _, rfl⟩ := temp_eq_some hwho
  rw [List.length_append, List.length_dropLast, List.length_singleton] at hlength
  omega

/-- Who has the same temporary name has the same process and counter. -/
theorem id_eq_of_temp (h : call.temp key = some p) (h' : call'.temp key = some p) : call'.id = call.id := by
  obtain ⟨name, pid, unique, hname, hid, rfl⟩ := temp_eq_some h
  obtain ⟨name', pid', unique', hname', hid', heq⟩ := temp_eq_some h'
  obtain rfl := Option.some.inj (hname.symm.trans hname')
  obtain ⟨rfl, rfl⟩ := tmp_name_inj.mp (List.singleton_inj.mp (List.append_cancel_left heq))
  rw [hid, hid']

end Names

section Callers

variable [Ed25519Dalek] [IoErrorText] [RustFmt] {calls : Who → KeyCall} {who : Who} {w : World Who Event}

def KeyCall.program (key : Path) : KeyCall → Prog (Calls Who Event) TrustError Ed25519Identity
  | .load => Ed25519Identity.load key
  | .load_or_generate pid unique seed => Ed25519Identity.load_or_generate key pid unique seed

/-- The errors of a key that cannot be read or written. -/
inductive KeyUnavailable : TrustError → Prop where
  | read (e : IoError) : KeyUnavailable (.KeyManagement s!"failed to read identity key: {IoErrorText.to_string e}")
  | write (e : IoError) : KeyUnavailable (write_error e)
  | no_file_name (path : Path) :
    KeyUnavailable (.KeyManagement s!"identity key path has no filename component: {RustFmt.display path}")

/-- How a caller may end: with the identity of the key file, or because there is none. -/
def Obtained (key : Path) : Outcome TrustError Ed25519Identity → World Who Event → Prop
  | .done identity, w => w.fs.file key = some identity.signing_key.as_slice
  | .failed e, _ => KeyUnavailable e
  | .panicked, _ => False

theorem lasting_obtained : Lasting key (Obtained key : _ → World Who Event → Prop) := by
  intro out w w' hout hstays
  cases out with
  | done identity => exact hstays _ hout
  | failed e => exact hout
  | panicked => exact hout

theorem keeps_load_existing :
    Keeps who (publishing key (temps calls key) (IsSeed calls) who) (Obtained key) (load_existing key) w := by
  change Keeps who _ _ (call (.read key) >>= fun r => (Prog.of_except r).map_error _ >>= _) w
  refine (Looks.publishing waits_true).call rfl trivial fun w choice r _ hinv _ happly => ?_
  cases r with
  | error e => exact .read e
  | ok bytes =>
    have hfile : w.fs.file key = some bytes := by
      cases choice with
      | proceed => exact Fs.read_eq_ok_iff.mp (Prod.mk.inj (Option.some.inj happly)).1
      | fault => cases happly
      | stores => cases happly
      | lists => cases happly
      | cut => cases happly
    obtain hnone | ⟨_, ⟨_, seed, _, rfl⟩, hseed⟩ := hinv.target
    · obtain ⟨_, hfind, _⟩ := Fs.file_eq_some_iff.mp hfile
      rw [hnone] at hfind
      cases hfind
    · obtain rfl := Option.some.inj (hfile.symm.trans hseed)
      refine (congrArg (fun x => Keeps who (publishing key (temps calls key) (IsSeed calls) who) (Obtained key) x w)
        (dif_pos seed.length_eq)).mpr ?_
      exact hfile

omit [Ed25519Dalek] [RustFmt] in
theorem keeps_write_identity_file {seed : U8Array 32} {post : Outcome TrustError Unit → World Who Event → Prop}
    (hp : temps calls key who = some p) (hdone : ∀ inode w, Prepared key p inode seed.as_slice w.fs → post (.done ()) w)
    (hfail : ∀ e w, post (.failed (write_error e)) w) (hw : Unshared w.fs key p) :
    Keeps who (publishing key (temps calls key) (IsSeed calls) who) post (write_identity_file p seed) w := by
  refine Keeps.op (publishing_create hp (temp_ne hp)) hw fun r w hB hinv => ?_
  cases r with
  | error e => exact hfail e w
  | ok inode =>
    change Keeps who _ post ((fs.write_all inode seed.as_slice.length 0 seed.as_slice).map_error write_error >>= _) w
    refine Keeps.bind (Keeps.map_error ?_)
    refine (writes_publishing hp).write_all (fun w hw _ => ?_) (fun w e _ _ => hfail e w) (Nat.zero_le _) (by omega) hB hinv
    rw [List.take_length] at hw
    refine Keeps.op (publishing_set_permissions hp) hw fun r w hw _ => ?_
    cases r with
    | error e => exact hfail e w
    | ok _ => exact hdone inode w hw

theorem keeps_persist {seed : U8Array 32} (hp : temps calls key who = some p) (hseed : (calls who).seed = some seed)
    (hw : Unshared w.fs key p) :
    Keeps who (publishing key (temps calls key) (IsSeed calls) who) (Obtained key) (persist key p seed) w := by
  have hremove : ∀ {A : World Who Event → Prop}, Waits key (temps calls key) who A →
      (∀ w w', A w → Stays key w.fs w'.fs → A w') →
      Step who (publishing key (temps calls key) (IsSeed calls) who) A (.remove_file p) fun _ => A :=
    publishing_remove_file hp (temp_ne hp)
  have hfails : ∀ (e : TrustError) (w : World Who Event), KeyUnavailable e →
      Keeps who (publishing key (temps calls key) (IsSeed calls) who) (Obtained key)
        (remove_tmp_file p >>= fun _ => (.fail e : Prog _ _ Ed25519Identity)) w := fun e w he =>
    Keeps.op (hremove waits_true fun _ _ _ _ => trivial) trivial fun _ _ _ _ => he
  unfold persist
  refine Keeps.bind (Keeps.attempt (keeps_write_identity_file hp (fun inode w hw => ?_)
    (fun e w => hfails _ w (.write e)) hw))
  have htemp : ¬ Temp (temps calls key) key := fun ⟨_, hother⟩ => temp_ne hother rfl
  refine Keeps.op (publishing_hard_link hp htemp ⟨who, seed, hseed, rfl⟩) hw fun r w hB _ => ?_
  cases r with
  | ok _ => exact Keeps.op (hremove waits_file fun _ _ hw hstays => hstays _ hw) hB fun _ _ hw _ => hw
  | error e =>
    have hload : Keeps who (publishing key (temps calls key) (IsSeed calls) who) (Obtained key)
        (remove_tmp_file p >>= fun _ => load_existing key) w :=
      Keeps.op (hremove waits_true fun _ _ _ _ => trivial) trivial fun _ _ _ _ => keeps_load_existing
    have hfail := hfails _ w (.write e)
    cases e with
    | AlreadyExists => exact hload
    | _ => exact hfail

theorem keeps_generate_and_persist {pid : UInt32} {unique : UInt64} {seed : U8Array 32}
    (hcall : calls who = .load_or_generate pid unique seed) (hw : w.fs.find key = none) :
    Keeps who (publishing key (temps calls key) (IsSeed calls) who) (Obtained key)
      (generate_and_persist key pid unique seed) w := by
  unfold generate_and_persist
  cases hname : file_name key with
  | none => exact .no_file_name key
  | some name =>
    have hp : temps calls key who = some (key.dropLast ++ [tmp_name name pid unique]) := by
      rw [temps, hcall, KeyCall.temp, hname]
      rfl
    have hkey : key ≠ [] := by
      rintro rfl
      cases hname
    have hpersist : ∀ w : World Who Event, Unshared w.fs key (key.dropLast ++ [tmp_name name pid unique]) →
        Keeps who (publishing key (temps calls key) (IsSeed calls) who) (Obtained key)
          (persist key (key.dropLast ++ [tmp_name name pid unique]) seed) w :=
      fun w hw => keeps_persist hp (by rw [hcall]; rfl) hw
    change Keeps who _ _ (if key.dropLast ≠ [] then (fs.create_dir_all key.dropLast).map_error write_error >>=
      fun _ => persist key _ seed else persist key _ seed) w
    split
    · refine Keeps.bind (Keeps.map_error (publishing_create_dir_all_reversed hp (fun q hq => ?_) (fun out w hout hw => ?_)
        (unshared_of_find_eq_none hw)))
      · rw [List.reverse_reverse] at hq
        exact not_temp_of_prefix hkey hq
      · cases out with
        | done _ => exact hpersist w hw
        | failed e => exact .write e
        | panicked => exact absurd rfl hout
    · exact hpersist w (unshared_of_find_eq_none hw)

theorem KeyCall.keeps_program :
    Keeps who (publishing key (temps calls key) (IsSeed calls) who) (Obtained key) ((calls who).program key) w := by
  cases hcall : calls who with
  | load => exact keeps_load_existing
  | load_or_generate pid unique seed =>
    exact publishing_path_exists (fun w _ => keeps_load_existing) fun w _ hw => keeps_generate_and_persist hcall hw

section Runs

variable [DecidableEq Who] {sys mid last : System (Calls Who Event) TrustError Ed25519Identity}
  {action : Action (Calls Who Event)}

/-- Callers that have not started, where no key is. Left over temporary files are not links to
one another. -/
structure Provisioning (key : Path) (calls : Who → KeyCall)
    (sys : System (Calls Who Event) TrustError Ed25519Identity) : Prop where
  absent : sys.state.fs.find key = none
  leftovers : ∀ p q, Temp (temps calls key) p → Temp (temps calls key) q → q ≠ p → Unshared sys.state.fs p q
  idle : ∀ who, sys.status who = .idle
  procs : ∀ who, sys.procs who = (calls who).program key

/-- Callers that are at work at one time have different processes or counters, and a look for the
key fails at most where there is none. -/
def OwnNames (key : Path) (calls : Who → KeyCall) (sys : System (Calls Who Event) TrustError Ed25519Identity) :
    Action (Calls Who Event) → Prop
  | .act who choice =>
    (∀ other, other ≠ who → sys.status other = .live → (sys.procs other).head ≠ none →
      ∀ id, (calls who).id = some id → (calls other).id ≠ some id) ∧
    ((sys.procs who).head = some (.path_exists key) → choice = .fault → sys.state.fs.find key = none)
  | .crash _ => True

omit [Ed25519Dalek] [IoErrorText] [RustFmt] [DecidableEq Who] in
theorem exclusive_of_ownNames [Ed25519Dalek] {sys : System (Calls Who Event) TrustError Ed25519Identity}
    (h : OwnNames key calls sys action) : Exclusive key (temps calls key) sys action := by
  cases action with
  | crash who => trivial
  | act who choice =>
    refine ⟨fun other hother hlive hhead p hp hp' => ?_, h.2⟩
    obtain ⟨_, pid, unique, _, hid, _⟩ := temp_eq_some hp
    exact h.1 other hother hlive hhead _ hid ((id_eq_of_temp hp hp').trans hid)

omit [DecidableEq Who] in
theorem Provisioning.publishes (h : Provisioning key calls sys) :
    Publishes key (temps calls key) (IsSeed calls) (Obtained key) sys := by
  refine publishes_of_idle h.idle ⟨h.leftovers, .inl h.absent⟩ (fun who => ?_) fun who w _ => ?_
  · rw [h.procs who]
    cases calls who <;> rfl
  · rw [h.procs who]
    exact KeyCall.keeps_program

theorem Provisioning.reaches (h : Provisioning key calls sys) (hreach : System.Reaches (OwnNames key calls) sys last) :
    Publishes key (temps calls key) (IsSeed calls) (Obtained key) last :=
  (h.publishes.reaches lasting_obtained (hreach.mono fun _ _ => exclusive_of_ownNames)).1

/-- However callers race for one key that is missing, and wherever they fail or crash: there is no
key, or the key file holds the whole seed of one of them; whoever obtained an identity has the one
of that file; and nobody failed because of what the file holds. -/
theorem identity_converges (h : Provisioning key calls sys) (hreach : System.Reaches (OwnNames key calls) sys last) :
    (last.state.fs.find key = none ∨
      ∃ who seed, (calls who).seed = some seed ∧ last.state.fs.file key = some seed.as_slice) ∧
    (∀ who identity, last.procs who = .ret identity → last.state.fs.file key = some identity.signing_key.as_slice) ∧
    ∀ who e, last.procs who = .fail e → KeyUnavailable e := by
  have hpublishes := h.reaches hreach
  refine ⟨?_, fun who identity hproc => ?_, fun who e hproc => ?_⟩
  · refine hpublishes.published.target.imp_right ?_
    rintro ⟨_, ⟨who, seed, hseed, rfl⟩, hfile⟩
    exact ⟨who, seed, hseed, hfile⟩
  · exact hpublishes.ended who (.done identity) (by rw [hproc]; rfl)
  · exact hpublishes.ended who (.failed e) (by rw [hproc]; rfl)

/-- All callers that obtained an identity obtained the same one. -/
theorem obtained_identities_agree {who_1 who_2 : Who} {identity_1 identity_2 : Ed25519Identity}
    (h : Provisioning key calls sys) (hreach : System.Reaches (OwnNames key calls) sys last)
    (h_1 : last.procs who_1 = .ret identity_1) (h_2 : last.procs who_2 = .ret identity_2) : identity_1 = identity_2 := by
  have hpublishes := h.reaches hreach
  have hfile_1 : last.state.fs.file key = some identity_1.signing_key.as_slice :=
    hpublishes.ended who_1 (.done identity_1) (by rw [h_1]; rfl)
  have hfile_2 : last.state.fs.file key = some identity_2.signing_key.as_slice :=
    hpublishes.ended who_2 (.done identity_2) (by rw [h_2]; rfl)
  have hseed : identity_1.signing_key = identity_2.signing_key :=
    U8Array.ext (Option.some.inj (hfile_1.symm.trans hfile_2))
  obtain ⟨seed_1, verifying_1, rfl⟩ := identity_1
  obtain ⟨seed_2, verifying_2, rfl⟩ := identity_2
  obtain rfl : seed_1 = seed_2 := hseed
  rfl

/-- A key that is there stays as it is. -/
theorem key_file_never_changes {bytes : Bytes} (h : Provisioning key calls sys)
    (hreach : System.Reaches (OwnNames key calls) sys mid) (hlater : System.Reaches (OwnNames key calls) mid last)
    (hfile : mid.state.fs.file key = some bytes) : last.state.fs.file key = some bytes :=
  ((h.reaches hreach).reaches lasting_obtained (hlater.mono fun _ _ => exclusive_of_ownNames)).2 bytes hfile

end Runs

end Callers

section

open reference

/-- Three callers that generate a key where they find none, and two that only load it. -/
def five_calls : Fin 5 → KeyCall :=
  ![.load_or_generate 7 0 (of_hex 32 0), .load_or_generate 8 0 (of_hex 32 1), .load,
    .load_or_generate 9 0 (of_hex 32 2), .load]

def provisioned : System (Calls (Fin 5) Empty) TrustError Ed25519Identity :=
  ⟨⟨empty_fs, []⟩, fun who => (five_calls who).program key_path, fun _ => .idle⟩

theorem provisioning_provisioned : Provisioning key_path five_calls provisioned where
  absent := rfl
  leftovers p q _ _ _ := by
    have hnone : ∀ p, p ≠ [] → empty_fs.find p = none := fun p hp => by rw [Fs.find_of_ne hp]; rfl
    intro inode hp
    by_cases hnil : p = []
    · rw [hnil, Fs.find_nil] at hp
      cases hp
    · rw [show provisioned.state.fs.find p = none from hnone p hnil] at hp
      cases hp
  idle _ := rfl
  procs _ := rfl

/-- The second caller publishes before the first one does, and the others read in between. -/
def race : List (Fin 5 × Choice) := [
  (0, .proceed), (1, .proceed), (0, .proceed), (1, .proceed), (1, .stores 10), (0, .stores 32), (0, .proceed),
  (1, .stores 22), (1, .proceed), (1, .proceed)]

def race_end : List (Fin 5 × Choice) := [
  (0, .proceed), (2, .proceed), (3, .proceed), (3, .proceed), (4, .proceed), (0, .proceed), (0, .proceed), (1, .proceed)]

def moves (turns : List (Fin 5 × Choice)) : List (Action (Calls (Fin 5) Empty)) := turns.map fun turn => .act turn.1 turn.2

theorem own_names_moves {turns : List (Fin 5 × Choice)} (h : ∀ turn ∈ turns, turn.2 ≠ .fault) :
    ∀ action ∈ moves turns, ∀ sys, OwnNames key_path five_calls sys action := by
  intro action haction sys
  obtain ⟨turn, hturn, rfl⟩ := List.mem_map.mp haction
  refine ⟨fun other hother _ _ id hid hid' => hother ?_, fun _ hfault => absurd hfault (h turn hturn)⟩
  have hdistinct : ∀ who other : Fin 5, (five_calls who).id ≠ none → (five_calls who).id = (five_calls other).id →
      other = who := by decide
  exact hdistinct _ _ (by simp [hid]) (hid.trans hid'.symm)

/-- What the race leads to. -/
theorem exists_race : ∃ mid last, System.Reaches (OwnNames key_path five_calls) provisioned mid ∧
    System.Reaches (OwnNames key_path five_calls) mid last ∧
    mid.state.fs.file key_path = some (of_hex 32 1).as_slice ∧
    ∀ who, last.procs who = .ret (.from_seed (of_hex 32 1)) := by
  have hrun : (provisioned.exec (moves race)).any (fun mid =>
      decide (mid.state.fs.file key_path = some (of_hex 32 1).as_slice) && (mid.exec (moves race_end)).any fun last =>
        decide (∀ who, (last.procs who).outcome = some (.done (.from_seed (of_hex 32 1))))) = true := by decide +kernel
  obtain ⟨mid, hmid, hrest⟩ := (Option.any_eq_true _ _).mp hrun
  obtain ⟨hfile, hrest⟩ := (Bool.and_eq_true _ _).mp hrest
  obtain ⟨last, hlast, hends⟩ := (Option.any_eq_true _ _).mp hrest
  exact ⟨mid, last, System.reaches_of_exec_of_forall (own_names_moves (by decide)) hmid,
    System.reaches_of_exec_of_forall (own_names_moves (by decide)) hlast, of_decide_eq_true hfile,
    fun who => Prog.eq_ret_of_outcome (of_decide_eq_true hends who)⟩

theorem identity_converges_race : ∃ last, System.Reaches (OwnNames key_path five_calls) provisioned last ∧
    last.procs 2 = .ret (.from_seed (of_hex 32 1)) ∧ last.state.fs.file key_path = some (of_hex 32 1).as_slice := by
  obtain ⟨mid, last, hmid, hlast, _, hends⟩ := exists_race
  have hreach := hmid.trans hlast
  exact ⟨last, hreach, hends 2, (identity_converges provisioning_provisioned hreach).2.1 2 _ (hends 2)⟩

theorem obtained_identities_agree_race : ∃ last identity_1 identity_2,
    System.Reaches (OwnNames key_path five_calls) provisioned last ∧ last.procs 0 = .ret identity_1 ∧
      last.procs 1 = .ret identity_2 ∧ identity_1 = identity_2 := by
  obtain ⟨mid, last, hmid, hlast, _, hends⟩ := exists_race
  have hreach := hmid.trans hlast
  exact ⟨last, _, _, hreach, hends 0, hends 1, obtained_identities_agree provisioning_provisioned hreach (hends 0) (hends 1)⟩

theorem key_file_never_changes_race : ∃ last, System.Reaches (OwnNames key_path five_calls) provisioned last ∧
    (∀ who, last.procs who = .ret (.from_seed (of_hex 32 1))) ∧
    last.state.fs.file key_path = some (of_hex 32 1).as_slice := by
  obtain ⟨mid, last, hmid, hlast, hfile, hends⟩ := exists_race
  exact ⟨last, hmid.trans hlast, hends, key_file_never_changes provisioning_provisioned hmid hlast hfile⟩

/-- A process id that is used again. -/
def reused : System (Calls (Fin 2) Empty) TrustError Ed25519Identity :=
  ⟨⟨empty_fs, []⟩, fun _ => Ed25519Identity.load_or_generate key_path 7 0 (of_hex 32 0), fun _ => .idle⟩

/-- The first caller publishes its key and crashes with the temporary name left over. The second one has
the same name and fails to look: it opens the published file for writing, which empties the key. -/
theorem reused_name_empties_key : ∃ last, System.Reaches (fun _ _ => True) reused last ∧
    last.state.fs.file key_path = some [] := by
  have hrun : (reused.exec [.act 0 .proceed, .act 0 .proceed, .act 0 (.stores 32), .act 0 .proceed, .act 0 .proceed, .crash 0,
      .act 1 .fault, .act 1 .proceed]).any (fun last => decide (last.state.fs.file key_path = some [])) = true := by
    decide +kernel
  obtain ⟨last, hlast, hfile⟩ := (Option.any_eq_true _ _).mp hrun
  exact ⟨last, System.reaches_of_exec hlast, of_decide_eq_true hfile⟩

end

end lys
