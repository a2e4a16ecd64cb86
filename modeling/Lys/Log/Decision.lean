import Lys.Log.Reference
import Lys.Log.Restate

open rust effect posix

namespace lys

section Decision

variable [Sha2] [Base64] [SerdeJson LogConfig] [SerdeJson LogState] {Who Event : Type} {who : Who} {dir : Path}
  {origin : Str} {size : UInt64} {root : U8Array 32} {leaves : List Bytes} {w w' : World Who Event}

/-- The leaves that a directory whose state pins a size and a root is to open with: exactly
those pinned, or one more where the state can be advanced over it. -/
def Opens (v : Path → Option Entry) (dir : Path) (size : UInt64) (root : U8Array 32) (leaves : List Bytes) : Prop :=
  Listed v dir leaves ∧
    (leaves.length = size.toNat ∧ rfc6962.mth sha256_hasher leaves = root ∨
      leaves.length = size.toNat + 1 ∧ rfc6962.mth sha256_hasher (leaves.take size.toNat) = root ∧
        v (tmp_path dir) ≠ some .directory)

/-- The temporary state file is no other name of the configuration or of an entry of `leaves/`. -/
def Apart (fs : Fs) (dir : Path) : Prop :=
  ¬ NamesTemporary fs dir (config_path dir) ∧ ∀ name, ¬ NamesTemporary fs dir (leaves_dir dir ++ [name])

omit [Sha2] [Base64] [SerdeJson LogConfig] [SerdeJson LogState] in
theorem Beside.apart (h : Beside dir w w') (hapart : Apart w.fs dir) : Apart w'.fs dir :=
  ⟨fun hnames => hapart.1 (h.names _ config_path_ne_tmp_path config_path_ne_state_path hnames),
    fun name hnames => hapart.2 name (h.names _ (leaves_entry_ne _ _) (leaves_entry_ne _ _) hnames)⟩

omit [Sha2] [Base64] [SerdeJson LogState] in
theorem Beside.configured (h : Beside dir w w') (hconfig : Configured w.fs.view dir origin) (hapart : Apart w.fs dir) :
    Configured w'.fs.view dir origin := by
  obtain ⟨bytes, hfile, hparse⟩ := hconfig
  refine ⟨bytes, ?_, hparse⟩
  rw [h.view_eq _ config_path_ne_tmp_path config_path_ne_state_path hapart.1, hfile]

omit [Sha2] [Base64] [SerdeJson LogConfig] [SerdeJson LogState] in
theorem Beside.listed_iff (h : Beside dir w w') (hapart : Apart w.fs dir) :
    Listed w'.fs.view dir leaves ↔ Listed w.fs.view dir leaves := by
  have hentries : ∀ name, w'.fs.view (leaves_dir dir ++ [name]) = w.fs.view (leaves_dir dir ++ [name]) := fun name =>
    h.view_eq _ (leaves_entry_ne _ _) (leaves_entry_ne _ _) (hapart.2 name)
  have hdirectory : w'.fs.view (leaves_dir dir) = some .directory ↔ w.fs.view (leaves_dir dir) = some .directory := by
    rw [Fs.view_eq_directory_iff, h.find_eq _ tmp_path_ne_leaves_dir.symm state_path_ne_leaves_dir.symm,
      ← Fs.view_eq_directory_iff]
  exact ⟨fun hlisted => hlisted.congr (hdirectory.mp hlisted.directory) fun name => (hentries name).symm,
    fun hlisted => hlisted.congr (hdirectory.mpr hlisted.directory) hentries⟩

variable [RustFmt] [CtMerkle] [Rfc6962CtMerkle] [BuildProfile]

omit [BuildProfile] [RustFmt] in
/-- Leaves that are listed are settled once their root is the state. -/
theorem Restated.settled [StandardBase64] [LawfulSerdeJson LogState] {json : Bytes} {tree : AppendOnlyTree}
    (h : Restated dir json w w') (hjson : StateBytes tree.root json) (hconfig : Configured w.fs.view dir origin)
    (hlisted : Listed w.fs.view dir tree.leaves) (hapart : Apart w.fs dir) :
    Settled w'.fs.view dir origin tree.leaves := by
  have hstate : StatePins w'.fs.view dir tree.root.num_leaves tree.root.root_hash := statePins_of_stateBytes hjson h.state
  rw [AppendOnlyTree.root_eq] at hstate
  exact ⟨h.beside.configured hconfig hapart, (h.beside.listed_iff hapart).mpr hlisted, hstate⟩

omit [BuildProfile] [RustFmt] in
/-- What was read matches the state as its root over the RFC 6962 tree does. -/
theorem matches_of_found {store : LogStore} {size' : UInt64} {root' : U8Array 32}
    (hfound : Found w.fs.view dir store size' root') (hstate : StatePins w.fs.view dir size root) :
    (Pinned store.leaves size' root' ↔ store.leaves.length = size.toNat ∧ rfc6962.mth sha256_hasher store.leaves = root) ∧
      (OneMore store.leaves size' root' ↔ store.leaves.length = size.toNat + 1 ∧
        rfc6962.mth sha256_hasher (store.leaves.take size.toNat) = root) := by
  obtain ⟨rfl, rfl⟩ := hfound.state.unique hstate
  rw [Pinned, OneMore, Rfc6962CtMerkle.root_eq, Rfc6962CtMerkle.root_eq]
  exact ⟨Iff.rfl, Iff.rfl⟩

variable [StandardBase64] [LawfulSerdeJson LogState]

/-- Opening a configured directory whose state pins a size and a root decides exactly: it gives
the leaves that the directory opens with, settles them in the state and opens again without a
change; where there are none it fails and changes nothing. -/
theorem open_decides (hconfig : Configured w.fs.view dir origin) (hstate : StatePins w.fs.view dir size root) :
    (∀ leaves leaves', Opens w.fs.view dir size root leaves → Opens w.fs.view dir size root leaves' → leaves = leaves') ∧
    Completes who (fun out w' =>
      (∃ leaves store, Opens w.fs.view dir size root leaves ∧ out = .done store ∧ HandleOn dir origin leaves store ∧
        (Apart w.fs dir → Settled w'.fs.view dir origin leaves ∧ Completes who (fun out' w'' => w'' = w' ∧
          ∃ store', out' = .done store' ∧ HandleOn dir origin leaves store') (LogStore.openLog dir) w')) ∨
      (∀ leaves, ¬ Opens w.fs.view dir size root leaves) ∧ (∀ store, out ≠ .done store) ∧ w' = w)
      (LogStore.openLog dir) w := by
  refine ⟨fun leaves leaves' h h' => h.1.unique h'.1, ?_⟩
  refine open_solo (fun store size' root' hfound hpinned => .inl ?_) (fun store size' root' hfound honeMore => ?_)
    fun hbroken => ?_
  · obtain ⟨hlength, hroot⟩ := (matches_of_found hfound hstate).1.mp hpinned
    have hsettled : Settled w.fs.view dir origin store.leaves := by
      refine ⟨hconfig, hfound.leaves, ?_⟩
      rw [hlength, UInt64.ofNat_toNat, hroot]
      exact hstate
    exact ⟨_, store, ⟨hfound.leaves, .inl ⟨hlength, hroot⟩⟩, rfl,
      ⟨hfound.dir_eq, hfound.config.unique hconfig, rfl⟩, fun _ => ⟨hsettled, open_settled hsettled⟩⟩
  · obtain ⟨hlength, hroot⟩ := (matches_of_found hfound hstate).2.mp honeMore
    obtain ⟨json, hjson, _⟩ := exists_state_json_bytes (pinned_state store.tree.root) "log state"
    refine write_state_anywhere hjson (fun _ _ => trivial) (fun w' hw' => .inl ?_) fun w' e hobstructed => .inr ?_
    · have hclear : w.fs.view (tmp_path dir) ≠ some .directory := fun hdir => hw'.clear (Fs.view_eq_directory_iff.mp hdir)
      refine ⟨_, store, ⟨hfound.leaves, .inr ⟨hlength, hroot, hclear⟩⟩, rfl,
        ⟨hfound.dir_eq, hfound.config.unique hconfig, rfl⟩, fun hapart => ?_⟩
      have hsettled : Settled w'.fs.view dir origin store.leaves := by
        have hleaves := hfound.leaves
        rw [← store.tree_leaves] at hleaves ⊢
        exact hw'.settled hjson hconfig hleaves hapart
      exact ⟨hsettled, open_settled hsettled⟩
    · obtain ⟨hsame, hobstructed⟩ | hobstructed := hobstructed rfl
      · refine ⟨fun leaves hopens => ?_, nofun, hsame⟩
        obtain ⟨hpinned, _⟩ | ⟨_, _, hclear⟩ := hopens.2
        · rw [hopens.1.unique hfound.leaves] at hpinned
          omega
        · exact hclear (hstate.obstructed_iff.mp hobstructed)
      · exact absurd hobstructed hstate.not_obstructed
  · have hnone : ∀ leaves, ¬ Opens w.fs.view dir size root leaves := by
      rintro leaves ⟨hlisted, hmatch⟩
      have hfound : Found w.fs.view dir ⟨dir, origin, leaves, ⟨leaves⟩, rfl⟩ size root := ⟨rfl, hconfig, hlisted, hstate⟩
      obtain ⟨hnotPinned, hnotOneMore⟩ := hbroken rfl _ _ _ hfound
      rw [(matches_of_found hfound hstate).1] at hnotPinned
      rw [(matches_of_found hfound hstate).2] at hnotOneMore
      obtain hpinned | ⟨hlength, hroot, _⟩ := hmatch
      · exact hnotPinned hpinned
      · exact hnotOneMore ⟨hlength, hroot⟩
    exact ⟨fun e => .inr ⟨hnone, nofun, rfl⟩, .inr ⟨hnone, nofun, rfl⟩⟩

omit [StandardBase64] in
/-- A directory that is opened, under faults or not, opens with what it was opened with. -/
theorem opens_of_open {choices : List Choice} {store : LogStore}
    (hopen : (run who (LogStore.openLog dir) choices w).outcome = some (.done store)) :
    ∃ size root, StatePins w.fs.view dir size root ∧ Opens w.fs.view dir size root store.leaves := by
  have hkeeps : Keeps who (solo (fun _ => True) false) (fun out _ => ∀ store, out = .done store →
      ∃ size root, StatePins w.fs.view dir size root ∧ Opens w.fs.view dir size root store.leaves)
      (LogStore.openLog dir) w := by
    refine open_solo ?_ ?_ fun _ => ⟨nofun, nofun⟩
    · rintro store size root hfound hpinned _ ⟨⟩
      exact ⟨size, root, hfound.state, hfound.leaves, .inl ((matches_of_found hfound hfound.state).1.mp hpinned)⟩
    · intro store size root hfound honeMore
      obtain ⟨json, hjson, _⟩ := exists_state_json_bytes (pinned_state store.tree.root) "log state"
      refine write_state_anywhere hjson (fun _ _ => trivial) (fun w' hrestated => ?_) fun _ _ _ => nofun
      rintro _ ⟨⟩
      obtain ⟨hlength, hroot⟩ := (matches_of_found hfound hfound.state).2.mp honeMore
      refine ⟨size, root, hfound.state, hfound.leaves, .inr ⟨hlength, hroot, fun htmp => ?_⟩⟩
      exact hrestated.clear (Fs.view_eq_directory_iff.mp htmp)
  exact (run_solo hkeeps trivial).2 _ hopen store rfl

omit [Sha2] [Rfc6962CtMerkle] [StandardBase64] in
/-- Wherever opening stops, nothing changed but the state and the temporary file, and these only
where the latter is no directory. -/
theorem beside_run_open {choices : List Choice} : Beside dir w (run who (LogStore.openLog dir) choices w).state ∧
    (w.fs.find (tmp_path dir) = some .directory → (run who (LogStore.openLog dir) choices w).state = w) := by
  have hkeeps : Keeps who (solo (fun w' => Beside dir w w' ∧ (w.fs.find (tmp_path dir) = some .directory → w' = w)) false)
      (fun _ _ => True) (LogStore.openLog dir) w := by
    refine open_solo (fun _ _ _ _ _ => trivial) (fun store size root _ _ => ?_) fun _ => ⟨fun _ => trivial, trivial⟩
    obtain ⟨json, hjson, _⟩ := exists_state_json_bytes (pinned_state store.tree.root) "log state"
    refine write_state_anywhere hjson (fun w' hw' => ?_) (fun _ _ => trivial) fun _ _ _ => trivial
    obtain ⟨_, _, hstaged⟩ | hrestated := hw'
    · exact ⟨hstaged.beside, fun htmp => absurd htmp hstaged.clear⟩
    · exact ⟨hrestated.beside, fun htmp => absurd htmp hrestated.clear⟩
  exact (run_solo hkeeps ⟨.refl dir w, fun _ => rfl⟩).1

end Decision

section

open reference

/-- The log of one leaf with a second leaf file beside it, and a directory in the place of the
temporary state file. -/
def temporary_directory : World Unit Empty :=
  (@run (Calls Unit Empty) Empty _ () (call (.mkdir (tmp_path log_dir))) [.proceed] extra_leaf).state

/-- The log of one leaf with a second leaf file beside it, the first leaf being linked to the
name of the temporary state file. -/
def temporary_link : World Unit Empty :=
  (@run (Calls Unit Empty) Empty _ () (call (.hard_link (leaf_path log_dir 0) (tmp_path log_dir))) [.proceed]
    extra_leaf).state

/-- What the files of the log have to be for its state to pin "x" beside the leaves "x" and "y". -/
theorem log_of_files {w : World Unit Empty}
    (h : w.fs.view (config_path log_dir) =
        some (.file (as_bytes (config_text ⟨LOG_DIR_FORMAT, "log".toList⟩ ++ ['\n']))) ∧
      w.fs.view (state_path log_dir) =
        some (.file (as_bytes (state_text (pinned_state ⟨rfc6962.mth sha256_hasher [[0x78]], 1⟩) ++ ['\n']))) ∧
      (visible (w.fs.children (leaves_dir log_dir))).Perm (leaf_entries 2) ∧
      w.fs.find (leaves_dir log_dir) = some .directory ∧ w.fs.file (leaf_path log_dir 0) = some [0x78] ∧
      w.fs.file (leaf_path log_dir 1) = some [0x79]) :
    Configured w.fs.view log_dir "log".toList ∧
      StatePins w.fs.view log_dir 1 (rfc6962.mth sha256_hasher [[0x78]]) ∧
      Listed w.fs.view log_dir [[0x78], [0x79]] := by
  obtain ⟨hconfig, hstate, hentries, hdirectory, hx, hy⟩ := h
  refine ⟨⟨_, hconfig, ?_⟩, statePins_of_stateBytes rfl hstate,
    listed_of_children (by decide) hdirectory (.refl _) hentries fun i leaf hleaf => ?_⟩
  · change ok_or ((from_utf8 (as_bytes _)).bind read_config) _ = _
    rw [from_utf8_as_bytes, Option.bind_some, read_config_config_text]
    rfl
  · match i with
    | 0 => exact (Option.some.inj hleaf) ▸ hx
    | 1 => exact (Option.some.inj hleaf) ▸ hy
    | i + 2 => simp at hleaf

/-- An open that lists two leaves and advances the state over the second one. -/
def recovery : List Choice := [.proceed, .proceed, .proceed, .lists [leaf_entry 1, leaf_entry 0], .proceed, .proceed,
  .proceed, .proceed, .proceed, .stores 84, .proceed]

/-- One leaf more than the state pins is refused where a directory stands in the place of the
temporary state file, and the first leaf is lost where it has that name too. -/
theorem open_refuses_temporary_directory :
    ((Configured temporary_directory.fs.view log_dir "log".toList ∧
        StatePins temporary_directory.fs.view log_dir 1 (rfc6962.mth sha256_hasher [[0x78]]) ∧
        Listed temporary_directory.fs.view log_dir [[0x78], [0x79]]) ∧
      fails (run () (LogStore.openLog log_dir) recovery temporary_directory).outcome = true) ∧
    (Configured temporary_link.fs.view log_dir "log".toList ∧
      StatePins temporary_link.fs.view log_dir 1 (rfc6962.mth sha256_hasher [[0x78]]) ∧
      Listed temporary_link.fs.view log_dir [[0x78], [0x79]]) ∧
    leaves_of (run () (LogStore.openLog log_dir) recovery temporary_link).outcome = some [[0x78], [0x79]] ∧
    (run () (LogStore.openLog log_dir) recovery temporary_link).state.fs.file (leaf_path log_dir 0) ≠ some [0x78] := by
  refine ⟨⟨log_of_files (by decide +kernel), ?_⟩, log_of_files (by decide +kernel), ?_, ?_⟩
  · decide +kernel
  · decide +kernel
  · decide +kernel

theorem open_decides_extra_leaf :
    Completes () (fun out w' =>
      (∃ leaves store, Opens extra_leaf.fs.view log_dir 1 (rfc6962.mth sha256_hasher [[0x78]]) leaves ∧
        out = .done store ∧ HandleOn log_dir "log".toList leaves store ∧
        (Apart extra_leaf.fs log_dir → Settled w'.fs.view log_dir "log".toList leaves ∧
          Completes () (fun out' w'' => w'' = w' ∧ ∃ store', out' = .done store' ∧
            HandleOn log_dir "log".toList leaves store') (LogStore.openLog log_dir) w')) ∨
      (∀ leaves, ¬ Opens extra_leaf.fs.view log_dir 1 (rfc6962.mth sha256_hasher [[0x78]]) leaves) ∧
        (∀ store, out ≠ .done store) ∧ w' = extra_leaf)
      (LogStore.openLog log_dir) extra_leaf := by
  obtain ⟨hconfig, hstate, _⟩ := log_of_files (w := extra_leaf) (by decide +kernel)
  exact (open_decides hconfig hstate).2

end

end lys
