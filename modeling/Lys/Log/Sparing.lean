import Lys.Cli.Log
import Lys.Log.Open
import Lys.Log.Write
import Lys.Posix.Sharing

open rust effect posix

namespace lys

variable {Who Event : Type} {dir : Path} {R : Event → Prop}

/-- The configuration of a log directory, and what stands in its `leaves/`. -/
def LogFile (dir path : Path) : Prop := path = config_path dir ∨ leaves_dir dir <+: path

theorem logFile_config_path : LogFile dir (config_path dir) := .inl rfl

theorem logFile_leaf_path {index : UInt64} : LogFile dir (leaf_path dir index) := .inr ⟨[leaf_entry index], rfl⟩

/-- A file beside `leaves/` with another name than the configuration's. -/
theorem not_logFile {name : Name} (hconfig : name ≠ component "log.json") (hleaves : name ≠ component "leaves") :
    ¬ LogFile dir (dir ++ [name]) := by
  rintro (heq | hprefix)
  · exact hconfig (by simpa [config_path] using heq)
  · rw [leaves_dir, List.prefix_append_right_inj, List.cons_prefix_cons] at hprefix
    exact hleaves hprefix.1.symm

theorem not_logFile_state_path : ¬ LogFile dir (state_path dir) := not_logFile (by decide) (by decide)

theorem not_logFile_tmp_path : ¬ LogFile dir (tmp_path dir) := not_logFile (by decide) (by decide)

variable {P : Path → Prop} [RustFmt]

theorem spares_read_file (path : Path) (what : String) : Spares P R none (read_file path what : Process Who Event Bytes) :=
  (spares_read path).map_error

theorem spares_write_file {path : Path} (hpath : ¬ P path) (contents : Bytes) (what : String) :
    Spares P R none (write_file path contents what : Process Who Event Unit) := (spares_write hpath contents).map_error

section Store

theorem spares_parse_state_file {T : Type} [SerdeJson T] (path : Path) (what : String) :
    Spares P R none (parse_state_file dir path what : Process Who Event T) :=
  (spares_read_file path what).bind fun _ => spares_of_except _

theorem spares_read_indices (entries : Listing) (indices : List UInt64) :
    Spares P R none (read_indices dir entries indices : Process Who Event (List UInt64)) := by
  induction entries generalizing indices with
  | nil => trivial
  | cons entry entries ih =>
    cases entry with
    | error source => trivial
    | ok name =>
      obtain ⟨_, heq⟩ | ⟨index, _, heq⟩ | ⟨_, _, e, heq⟩ :=
        @read_indices_cases Who Event _ dir name entries indices
      · rw [heq]
        exact ih indices
      · rw [heq]
        refine Spares.look rfl fun is_file => ?_
        cases is_file with
        | true => exact ih _
        | false => trivial
      · rw [heq]
        trivial

theorem spares_read_leaf_files (indices : List UInt64) (leaves : List Bytes) :
    Spares P R none (read_leaf_files dir indices leaves : Process Who Event (List Bytes)) := by
  induction indices generalizing leaves with
  | nil => trivial
  | cons index indices ih => exact (spares_read_file _ _).bind fun leaf => ih _

theorem spares_read_leaves : Spares P R none (read_leaves dir : Process Who Event (List Bytes)) := by
  refine Spares.look rfl fun names => (spares_of_except _).bind fun entries =>
    (spares_read_indices entries []).bind fun indices => (spares_of_except _).bind fun _ => ?_
  change Spares P R none (if _ then _ else _)
  split
  · trivial
  · exact spares_read_leaf_files _ _

variable [Base64] [SerdeJson LogState]

theorem spares_write_state (hstate : ¬ P (state_path dir)) (htmp : ¬ P (tmp_path dir)) (root : RootHash) :
    Spares P R none (write_state dir root : Process Who Event Unit) := by
  rw [write_state]
  exact (spares_of_except _).bind fun json => (spares_write_file htmp json _).bind fun _ =>
    (spares_rename htmp hstate).map_error

variable [CtMerkle] {store : LogStore}

theorem spares_append [Sha2] (hstate : ¬ P (state_path store.dir)) (htmp : ¬ P (tmp_path store.dir)) (leaf : Bytes) :
    Spares P R none (store.append leaf : Process Who Event _) := by
  refine spares_fill trivial fun r => ?_
  cases r with
  | error e => trivial
  | ok inode =>
    refine (spares_write_all inode _ _ _).attempt.bind fun written => ?_
    cases written with
    | error e => trivial
    | ok u =>
      change Spares P R none (if _ then _ else _)
      split
      · trivial
      · refine Spares.bind (spares_write_state hstate htmp _).attempt fun stated => ?_
        cases stated <;> trivial

variable [BuildProfile]

omit [RustFmt] [Base64] [SerdeJson LogState] [CtMerkle] in
theorem spares_add_u64 (a b : UInt64) : Spares P R none (add_u64 a b : Process Who Event UInt64) := by
  rw [add_u64]
  split
  · trivial
  · split <;> trivial

theorem spares_check_against_state (hstate : ¬ P (state_path store.dir)) (htmp : ¬ P (tmp_path store.dir))
    (size : UInt64) (root : U8Array 32) :
    Spares P R none (store.check_against_state size root : Process Who Event Unit) := by
  rw [LogStore.check_against_state]
  change Spares P R none (if _ then _ else _)
  split
  · trivial
  · refine (spares_add_u64 _ _).bind fun sum => ?_
    split
    · refine (spares_of_except _).bind fun prefixTree => ?_
      change Spares P R none (if _ then _ else _)
      split
      · exact spares_write_state hstate htmp _
      · trivial
    · trivial

/-- A handle knows the directory it was opened on. -/
theorem returns_openLog [SerdeJson LogConfig] :
    Returns (fun store : LogStore => store.dir = dir) (LogStore.openLog dir : Process Who Event LogStore) := by
  refine Returns.bind fun present => ?_
  cases present with
  | false => trivial
  | true =>
    refine Returns.bind fun config => ?_
    change Returns _ (if _ then _ else _)
    split
    · trivial
    · exact Returns.bind fun state => Returns.bind fun root => Returns.bind fun leaves => Returns.bind fun _ => rfl

theorem spares_openLog [SerdeJson LogConfig] (hstate : ¬ P (state_path dir)) (htmp : ¬ P (tmp_path dir)) :
    Spares P R none (LogStore.openLog dir : Process Who Event LogStore) := by
  refine Spares.look rfl fun present => ?_
  cases present with
  | false => trivial
  | true =>
    refine (spares_parse_state_file _ _).bind fun config => ?_
    change Spares P R none (if _ then _ else _)
    split
    · trivial
    · refine (spares_parse_state_file _ _).bind fun state => (spares_of_except _).bind fun root =>
        spares_read_leaves.bind fun leaves => ?_
      exact (spares_check_against_state hstate htmp _ _).bind fun _ => trivial

end Store

section Commands

omit [RustFmt] in
theorem spares_of_except_bind {ε α β : Type} {result : Except ε α} {next : α → Prog (Calls Who Event) ε β}
    (h : ∀ a, result = .ok a → Spares P R none (next a)) : Spares P R none (Prog.of_except result >>= next) := by
  cases result with
  | ok a => exact h a rfl
  | error e => trivial

variable [Ed25519Dalek] {R : LogEvent → Prop}

omit [RustFmt] in
theorem spares_note_event {event : LogEvent} (h : R event) :
    Spares P R none (note_event event : Process Who LogEvent Unit) := ⟨h, fun _ => trivial⟩

omit [RustFmt] in
theorem spares_print_line (hconsole : ∀ line, R (.console line)) (line : String) :
    Spares P R none (print_line line : Process Who LogEvent Unit) := spares_note_event (hconsole _)

omit [RustFmt] in
theorem spares_print_hash (hconsole : ∀ line, R (.console line)) (label : String) (hash : U8Array 32) :
    Spares P R none (print_hash label hash : Process Who LogEvent Unit) := spares_print_line hconsole _

omit [RustFmt] in
theorem spares_load_identity [IoErrorText] (key : Path) : Spares P R none (load_identity key : Process Who LogEvent _) := by
  refine Spares.look rfl fun present => ?_
  cases present with
  | false => trivial
  | true =>
    refine Spares.map_error (Spares.bind (spares_read key).map_error fun bytes => ?_)
    split <;> trivial

theorem spares_write_artifact {T : Type} [SerdeJson T] {out : Path} (hout : ¬ P out) (artifact : T) (what : String) :
    Spares P R none (write_artifact out artifact what : Process Who LogEvent Unit) :=
  (spares_of_except _).bind fun _ => spares_write_file hout _ _

section Artifacts

variable [Sha2] [Base64] [CtMerkle] {origin : Str} {identity : Ed25519Identity}

omit [RustFmt] in
/-- The checkpoint of an inclusion artifact is signed over the root of the tree. -/
theorem signed_of_build_inclusion_artifact {tree : AppendOnlyTree} {leaf : Bytes} {i : UInt64}
    {artifact : InclusionProofArtifact} (h : build_inclusion_artifact tree leaf origin identity i = .ok artifact) :
    ∃ body, CheckpointBody.from_root origin tree.root = .ok body ∧
      sign_note body.encode origin identity = .ok artifact.checkpoint := by
  simp only [build_inclusion_artifact, bind_eq_ok_iff, pure_eq_ok_iff] at h
  obtain ⟨_, _, _, _, _, _, body, hbody, note, hnote, _, _, _, _, rfl⟩ := h
  exact ⟨body, hbody, hnote⟩

omit [RustFmt] in
/-- Those of a consistency artifact, over the roots of the two trees. -/
theorem signed_of_build_consistency_artifact {old_tree new_tree : AppendOnlyTree} {artifact : ConsistencyProofArtifact}
    (h : build_consistency_artifact old_tree new_tree origin identity = .ok artifact) :
    (∃ body, CheckpointBody.from_root origin old_tree.root = .ok body ∧
      sign_note body.encode origin identity = .ok artifact.checkpoint_1) ∧
    ∃ body, CheckpointBody.from_root origin new_tree.root = .ok body ∧
      sign_note body.encode origin identity = .ok artifact.checkpoint_2 := by
  simp only [build_consistency_artifact, bind_eq_ok_iff, pure_eq_ok_iff] at h
  obtain ⟨_, _, _, _, _, _, _, _, _, _, body_1, hbody_1, body_2, hbody_2, note_1, hnote_1, note_2, hnote_2, _, _, _, _, rfl⟩ := h
  exact ⟨⟨body_1, hbody_1, hnote_1⟩, body_2, hbody_2, hnote_2⟩

end Artifacts

section On

variable [IoErrorText] [Sha2] [Base64] [CtMerkle] [SerdeJson LogState] [SerdeJson InclusionProofArtifact]
  [SerdeJson ConsistencyProofArtifact] {store : LogStore} {out : Path}

/-- Events are admitted that print, or that a note was signed over the root of the first leaves of
a handle. -/
structure AdmitsSigned (R : LogEvent → Prop) (store : LogStore) : Prop where
  console : ∀ line, R (.console line)
  signed : ∀ identity leaves body note, leaves <+: store.leaves →
    CheckpointBody.from_root store.origin (⟨leaves⟩ : AppendOnlyTree).root = .ok body →
    sign_note body.encode store.origin identity = .ok note → R (.signed identity (⟨leaves⟩ : AppendOnlyTree).root note)

omit [RustFmt] [IoErrorText] [SerdeJson LogState] [SerdeJson InclusionProofArtifact]
  [SerdeJson ConsistencyProofArtifact] in
theorem AdmitsSigned.whole (h : AdmitsSigned R store) {identity : Ed25519Identity} {body : CheckpointBody} {note : Str}
    (hbody : CheckpointBody.from_root store.origin store.tree.root = .ok body)
    (hnote : sign_note body.encode store.origin identity = .ok note) : R (.signed identity store.tree.root note) := by
  have htree : store.tree = ⟨store.leaves⟩ := AppendOnlyTree.ext store.tree_leaves
  rw [htree] at hbody ⊢
  exact h.signed identity store.leaves body note List.prefix_rfl hbody hnote

omit [SerdeJson LogState] [SerdeJson InclusionProofArtifact] [SerdeJson ConsistencyProofArtifact] in
theorem spares_checkpoint_of (h : AdmitsSigned R store) (hout : ¬ P out) (key : Path) :
    Spares P R none (checkpoint_of store key out : Process Who LogEvent Unit) := by
  refine (spares_load_identity key).bind fun identity => spares_of_except_bind fun body hbody =>
    spares_of_except_bind fun note hnote => ?_
  rw [mapError_eq_ok_iff] at hbody hnote
  refine (spares_note_event (h.whole hbody hnote)).bind fun _ => (spares_write_file hout _ _).bind fun _ =>
    (spares_of_except _).bind fun verifier => (spares_print_line h.console _).bind fun _ =>
    (spares_print_line h.console _).bind fun _ => (spares_print_hash h.console _ _).bind fun _ =>
    (spares_print_line h.console _).bind fun _ => spares_print_line h.console _

omit [SerdeJson LogState] [SerdeJson ConsistencyProofArtifact] in
theorem spares_inclusion_of (h : AdmitsSigned R store) (hout : ¬ P out) (key : Path) (leaf_index : UInt64) :
    Spares P R none (inclusion_of store key leaf_index out : Process Who LogEvent Unit) := by
  refine (spares_load_identity key).bind fun identity => (spares_of_except _).bind fun leaf_bytes =>
    spares_of_except_bind fun artifact hartifact => ?_
  rw [mapError_eq_ok_iff] at hartifact
  obtain ⟨body, hbody, hnote⟩ := signed_of_build_inclusion_artifact hartifact
  refine (spares_note_event (h.whole hbody hnote)).bind fun _ => (spares_write_artifact hout _ _).bind fun _ =>
    (spares_print_line h.console _).bind fun _ => (spares_print_line h.console _).bind fun _ =>
    (spares_print_hash h.console _ _).bind fun _ => spares_print_line h.console _

omit [SerdeJson LogState] [SerdeJson InclusionProofArtifact] in
theorem spares_consistency_of (h : AdmitsSigned R store) (hout : ¬ P out) (key : Path) (old_size : UInt64) :
    Spares P R none (consistency_of store key old_size out : Process Who LogEvent Unit) := by
  refine (spares_load_identity key).bind fun identity => ?_
  change Spares P R none (if _ then _ else _)
  split
  · trivial
  · refine spares_of_except_bind fun old_tree hold => spares_of_except_bind fun artifact hartifact => ?_
    rw [mapError_eq_ok_iff] at hartifact
    obtain ⟨⟨body_1, hbody_1, hnote_1⟩, body_2, hbody_2, hnote_2⟩ := signed_of_build_consistency_artifact hartifact
    have hprefix : old_tree = ⟨store.leaves.take old_size.toNat⟩ := by
      simp only [LogStore.prefix_tree, bind_eq_ok_iff, pure_eq_ok_iff, AppendOnlyTree.reconstruct_from_raw_leaves_eq] at hold
      obtain ⟨_, _, rfl⟩ := hold
      rfl
    subst hprefix
    refine (spares_note_event (h.signed _ _ body_1 _ (List.take_prefix _ _) hbody_1 hnote_1)).bind fun _ =>
      (spares_note_event (h.whole hbody_2 hnote_2)).bind fun _ => (spares_write_artifact hout _ _).bind fun _ =>
      (spares_print_line h.console _).bind fun _ => (spares_print_line h.console _).bind fun _ =>
      (spares_print_hash h.console _ _).bind fun _ => (spares_print_hash h.console _ _).bind fun _ =>
      spares_print_line h.console _

variable [SerdeJson LogConfig] [BuildProfile] {dir : Path}

/-- The commands spare the files of the log, as long as they are not told to write over them. -/
theorem LogCommand.spares {command : LogCommand} (hout : ∀ out ∈ command.out, ¬ LogFile dir out) :
    Spares (LogFile dir) (fun _ => True) none (command.process dir : Process Who LogEvent Unit) := by
  have hadmits : ∀ store : LogStore, AdmitsSigned (fun _ => True) store :=
    fun _ => ⟨fun _ => trivial, fun _ _ _ _ _ _ _ => trivial⟩
  have hstart : Spares (LogFile dir) (fun _ => True) none (start_on dir : Process Who LogEvent LogStore) :=
    (spares_note_event trivial).bind fun _ => (spares_openLog not_logFile_state_path not_logFile_tmp_path).bind fun store =>
      (spares_note_event trivial).bind fun _ => trivial
  have hreturns : Returns (fun store : LogStore => store.dir = dir) (start_on dir : Process Who LogEvent LogStore) :=
    fun _ => returns_openLog.bind_of_returns fun store hdir _ => hdir
  refine hstart.bind_of_returns hreturns fun store hdir => ?_
  change Spares (LogFile dir) (fun _ => True) none (command.on store)
  cases command with
  | append leaf =>
    subst hdir
    refine (spares_read_file leaf _).bind fun leaf_bytes =>
      (spares_append not_logFile_state_path not_logFile_tmp_path leaf_bytes).bind fun result => ?_
    exact (spares_of_except _).bind fun _ => (spares_note_event trivial).bind fun _ =>
      (spares_print_line (fun _ => trivial) _).bind fun _ => (spares_print_line (fun _ => trivial) _).bind fun _ =>
      (spares_print_line (fun _ => trivial) _).bind fun _ => spares_print_hash (fun _ => trivial) _ _
  | checkpoint key out => exact spares_checkpoint_of (hadmits store) (hout out rfl) key
  | prove_inclusion key leaf_index out => exact spares_inclusion_of (hadmits store) (hout out rfl) key leaf_index
  | prove_consistency key old_size out => exact spares_consistency_of (hadmits store) (hout out rfl) key old_size

end On

end Commands

end lys
