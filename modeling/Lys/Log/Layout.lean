import Lys.Log.Open
import Lys.Log.Write

open rust effect posix

namespace lys

variable {Who Event : Type} {who : Who} {dir : Path} {v : Path → Option Entry} {leaves : List Bytes}

section Layout

/-- `leaves/` holds the files of some leaves, and nothing else but names with a dot. -/
structure Listed (v : Path → Option Entry) (dir : Path) (leaves : List Bytes) : Prop where
  room : leaves.length ≤ MAX_LEAVES
  directory : v (leaves_dir dir) = some .directory
  files : ∀ i leaf, leaves[i]? = some leaf → v (leaf_path dir (UInt64.ofNat i)) = some (.file leaf)
  only : ∀ name, hidden name = false → v (leaves_dir dir ++ [name]) ≠ none → name ∈ leaf_entries leaves.length

/-- `leaves/` holds `n` leaf files, and nothing else but names with a dot. -/
structure Numbered (v : Path → Option Entry) (dir : Path) (n : Nat) : Prop where
  bound : n ≤ 2 ^ 64
  directory : v (leaves_dir dir) = some .directory
  files : ∀ i < n, ∃ leaf, v (leaf_path dir (UInt64.ofNat i)) = some (.file leaf)
  only : ∀ name, hidden name = false → v (leaves_dir dir ++ [name]) ≠ none → name ∈ leaf_entries n

section Numbered

variable {n m : Nat}

/-- The leaves are there up to their number. -/
theorem Numbered.isSome_iff (h : Numbered v dir n) {i : Nat} (hi : i < 2 ^ 64) :
    v (leaf_path dir (UInt64.ofNat i)) ≠ none ↔ i < n := by
  constructor
  · intro hsome
    have hmem := h.only _ (hidden_leaf_entry _) hsome
    obtain ⟨j, hj, heq⟩ := mem_leaf_entries_iff.mp hmem
    rw [ofNat_inj hi (hj.trans_le h.bound) (leaf_entry_injective heq)]
    exact hj
  · intro hi
    obtain ⟨leaf, hleaf⟩ := h.files i hi
    rw [hleaf]
    exact Option.some_ne_none _

theorem Numbered.le (h : Numbered v dir n) (h' : Numbered v dir m) : n ≤ m := by
  by_contra hlt
  rw [Nat.not_le] at hlt
  have hm := hlt.trans_le h.bound
  exact absurd ((h'.isSome_iff hm).mp ((h.isSome_iff hm).mpr hlt)) (lt_irrefl _)

/-- A directory has one number of leaves. -/
theorem Numbered.unique (h : Numbered v dir n) (h' : Numbered v dir m) : n = m := le_antisymm (h.le h') (h'.le h)

theorem Numbered.perm_visible {fs : Fs} {names : List Name} (h : Numbered fs.view dir n)
    (hnames : names.Perm (fs.children (leaves_dir dir))) : (visible names).Perm (leaf_entries n) := by
  have hnodup : (visible names).Nodup := (hnames.nodup_iff.mpr Fs.nodup_children).filter _
  refine (List.perm_ext_iff_of_nodup hnodup (nodup_leaf_entries h.bound)).mpr fun name => ?_
  rw [visible, List.mem_filter, hnames.mem_iff, Fs.mem_children_iff, Fs.isSome_find_iff, Option.isSome_iff_ne_none]
  constructor
  · rintro ⟨hsome, hhidden⟩
    exact h.only name (by simpa using hhidden) hsome
  · intro hmem
    obtain ⟨i, hi, rfl⟩ := mem_leaf_entries_iff.mp hmem
    exact ⟨(h.isSome_iff (hi.trans_le h.bound)).mpr hi, by simp [hidden_leaf_entry]⟩

/-- There are as many leaf names as indices. -/
theorem le_of_nodup_leaf_entries (h : (leaf_entries n).Nodup) : n ≤ 2 ^ 64 := by
  by_contra hlt
  rw [Nat.not_le] at hlt
  have hzero : leaf_entry (UInt64.ofNat 0) = leaf_entry (UInt64.ofNat (2 ^ 64)) := rfl
  exact absurd (List.inj_on_of_nodup_map h (List.mem_range.mpr (by omega)) (List.mem_range.mpr hlt) hzero) (by decide)

/-- The names of a directory that are the first leaves', and their files. -/
theorem numbered_of_children {fs : Fs} {names : List Name} (hdirectory : fs.find (leaves_dir dir) = some .directory)
    (hnames : names.Perm (fs.children (leaves_dir dir))) (hentries : (visible names).Perm (leaf_entries n))
    (hfiles : ∀ i < n, (fs.file (leaf_path dir (UInt64.ofNat i))).isSome) : Numbered fs.view dir n where
  bound := le_of_nodup_leaf_entries (hentries.nodup_iff.mp ((hnames.nodup_iff.mpr Fs.nodup_children).filter _))
  directory := Fs.view_eq_directory_iff.mpr hdirectory
  files i hi := by
    obtain ⟨leaf, hleaf⟩ := Option.isSome_iff_exists.mp (hfiles i hi)
    exact ⟨leaf, Fs.view_eq_file_iff.mpr hleaf⟩
  only name hhidden hsome := by
    rw [← Option.isSome_iff_ne_none, ← Fs.isSome_find_iff, ← Fs.mem_children_iff, ← hnames.mem_iff] at hsome
    exact hentries.mem_iff.mp (List.mem_filter.mpr ⟨hsome, by simp [hhidden]⟩)

end Numbered

theorem Listed.lt (h : Listed v dir leaves) : leaves.length < 2 ^ 64 := h.room.trans_lt (by decide)

theorem Listed.numbered (h : Listed v dir leaves) : Numbered v dir leaves.length :=
  ⟨h.lt.le, h.directory, fun i hi => ⟨_, h.files i _ (List.getElem?_eq_getElem hi)⟩, h.only⟩

/-- The leaves are there up to their number. -/
theorem Listed.isSome_iff (h : Listed v dir leaves) {i : Nat} (hi : i < 2 ^ 64) :
    v (leaf_path dir (UInt64.ofNat i)) ≠ none ↔ i < leaves.length := h.numbered.isSome_iff hi

/-- A directory lists one sequence of leaves. -/
theorem Listed.unique {leaves' : List Bytes} (h : Listed v dir leaves) (h' : Listed v dir leaves') :
    leaves = leaves' := by
  have hlength := h.numbered.unique h'.numbered
  refine List.ext_getElem hlength fun i hi hi' => ?_
  have hfile := h.files i leaves[i] (List.getElem?_eq_getElem hi)
  rw [h'.files i leaves'[i] (List.getElem?_eq_getElem hi')] at hfile
  exact (Entry.file.inj (Option.some.inj hfile)).symm

/-- Only `leaves/` and its entries matter. -/
theorem Listed.congr {v' : Path → Option Entry} (h : Listed v dir leaves)
    (hdirectory : v' (leaves_dir dir) = some .directory)
    (hentries : ∀ name, v' (leaves_dir dir ++ [name]) = v (leaves_dir dir ++ [name])) : Listed v' dir leaves := by
  refine ⟨h.room, hdirectory, fun i leaf hleaf => ?_, fun name hhidden hsome => ?_⟩
  · rw [leaf_path_eq, hentries]
    exact h.files i leaf hleaf
  · rw [hentries] at hsome
    exact h.only name hhidden hsome

/-- The listing of a directory whose names are the first leaves'. -/
theorem listed_of_children {fs : Fs} {names : List Name} (hroom : leaves.length ≤ MAX_LEAVES)
    (hdirectory : fs.find (leaves_dir dir) = some .directory) (hnames : names.Perm (fs.children (leaves_dir dir)))
    (hentries : (visible names).Perm (leaf_entries leaves.length))
    (hfiles : ∀ i leaf, leaves[i]? = some leaf → fs.file (leaf_path dir (UInt64.ofNat i)) = some leaf) :
    Listed fs.view dir leaves := by
  have hnumbered : Numbered fs.view dir leaves.length := by
    refine numbered_of_children hdirectory hnames hentries fun i hi => ?_
    rw [hfiles i _ (List.getElem?_eq_getElem hi)]
    rfl
  exact ⟨hroom, hnumbered.directory, fun i leaf hleaf => Fs.view_eq_file_iff.mpr (hfiles i leaf hleaf), hnumbered.only⟩

variable [SerdeJson LogConfig] [SerdeJson LogState] [Base64]

/-- `log.json` gives an origin. -/
def Configured (v : Path → Option Entry) (dir : Path) (origin : Str) : Prop :=
  ∃ bytes, v (config_path dir) = some (.file bytes) ∧
    SerdeJson.from_slice bytes = .ok ({ format := LOG_DIR_FORMAT, origin } : LogConfig)

/-- `state.json` pins a size and a root. -/
def StatePins (v : Path → Option Entry) (dir : Path) (size : UInt64) (root : U8Array 32) : Prop :=
  ∃ bytes root_hash, v (state_path dir) = some (.file bytes) ∧
    SerdeJson.from_slice bytes = .ok ({ tree_size := size, root_hash } : LogState) ∧
    decode_pinned_root dir root_hash = .ok root

omit [SerdeJson LogState] [Base64] in
theorem Configured.unique {origin origin' : Str} (h : Configured v dir origin) (h' : Configured v dir origin') :
    origin = origin' := by
  obtain ⟨bytes, hfile, hparse⟩ := h
  obtain ⟨bytes', hfile', hparse'⟩ := h'
  obtain rfl := Entry.file.inj (Option.some.inj (hfile.symm.trans hfile'))
  exact congrArg LogConfig.origin (Except.ok.inj (hparse.symm.trans hparse'))

omit [SerdeJson LogConfig] in
theorem StatePins.unique {size size' : UInt64} {root root' : U8Array 32} (h : StatePins v dir size root)
    (h' : StatePins v dir size' root') : size = size' ∧ root = root' := by
  obtain ⟨bytes, root_hash, hfile, hparse, hroot⟩ := h
  obtain ⟨bytes', root_hash', hfile', hparse', hroot'⟩ := h'
  obtain rfl := Entry.file.inj (Option.some.inj (hfile.symm.trans hfile'))
  obtain ⟨rfl, rfl⟩ := LogState.mk.inj (Except.ok.inj (hparse.symm.trans hparse'))
  exact ⟨rfl, Except.ok.inj (hroot.symm.trans hroot')⟩

omit [SerdeJson LogConfig] in
/-- The directory of a state is one. -/
theorem StatePins.directory {fs : Fs} {size : UInt64} {root : U8Array 32} (h : StatePins fs.view dir size root) :
    fs.view dir = some .directory := by
  obtain ⟨bytes, _, hfile, _⟩ := h
  rw [Fs.view_eq_file_iff, Fs.file_eq_some_iff] at hfile
  obtain ⟨inode, hfile, _⟩ := hfile
  rw [state_path] at hfile
  rw [Fs.view_eq_directory_iff]
  exact Fs.find_parent (show (fs.find (dir ++ [component "state.json"])).isSome by simp [hfile])

omit [SerdeJson LogConfig] in
/-- Nothing is in the way of a new state file. -/
theorem StatePins.not_obstructed {fs : Fs} {size : UInt64} {root : U8Array 32} (h : StatePins fs.view dir size root) :
    ¬ Obstructed fs.view (state_path dir) := by
  have hdirectory := h.directory
  obtain ⟨bytes, _, hfile, _⟩ := h
  rw [Obstructed, hfile, state_path, List.dropLast_concat, hdirectory]
  simp

omit [SerdeJson LogConfig] in
/-- Only a directory is in the way of the temporary file. -/
theorem StatePins.obstructed_iff {fs : Fs} {size : UInt64} {root : U8Array 32} (h : StatePins fs.view dir size root) :
    Obstructed fs.view (tmp_path dir) ↔ fs.view (tmp_path dir) = some .directory := by
  rw [Obstructed, or_iff_left]
  rw [tmp_path, List.dropLast_concat, h.directory]
  simp

section Written

variable [StandardBase64]

omit [SerdeJson LogConfig] [SerdeJson LogState] in
theorem decode_pinned_root_encode (root_hash : U8Array 32) :
    decode_pinned_root dir (Base64.encode root_hash.as_slice) = .ok root_hash := by
  have hdecode : Base64.decode (Base64.encode root_hash.as_slice) = .ok root_hash.as_slice :=
    (StandardBase64.decode_eq_ok_iff _ _).mpr (StandardBase64.encode_eq _)
  rw [decode_pinned_root, hdecode, ok_or_eq_ok_iff]
  exact U8Array.try_from_as_slice root_hash

omit [SerdeJson LogConfig] in
/-- A written state pins its root. -/
theorem statePins_of_stateBytes [LawfulSerdeJson LogState] {root : RootHash} {json : Bytes}
    (hjson : StateBytes root json) (hfile : v (state_path dir) = some (.file json)) :
    StatePins v dir root.num_leaves root.root_hash := by
  obtain ⟨json', hjson', hparse⟩ := exists_state_json_bytes (pinned_state root) "log state"
  rw [StateBytes] at hjson
  rw [hjson] at hjson'
  obtain rfl := Except.ok.inj hjson'
  exact ⟨json, _, hfile, hparse, decode_pinned_root_encode root.root_hash⟩

end Written

/-- A handle has what stands in a log directory. -/
structure Found (v : Path → Option Entry) (dir : Path) (store : LogStore) (size : UInt64) (root : U8Array 32) : Prop where
  dir_eq : store.dir = dir
  config : Configured v dir store.origin
  leaves : Listed v dir store.leaves
  state : StatePins v dir size root

/-- `log.json` and `state.json` parse, the state gives a size, and `leaves/` holds the files of
`n` leaves. -/
structure Parses (v : Path → Option Entry) (dir : Path) (n : Nat) (size : UInt64) : Prop where
  config : ∃ origin, Configured v dir origin
  state : ∃ root, StatePins v dir size root
  leaves : Numbered v dir n

theorem Found.parses {v : Path → Option Entry} {store : LogStore} {size : UInt64} {root : U8Array 32}
    (h : Found v dir store size root) : Parses v dir store.leaves.length size :=
  ⟨⟨_, h.config⟩, ⟨_, h.state⟩, h.leaves.numbered⟩

theorem Parses.unique {v : Path → Option Entry} {n n' : Nat} {size size' : UInt64} (h : Parses v dir n size)
    (h' : Parses v dir n' size') : n = n' ∧ size = size' := by
  obtain ⟨root, hstate⟩ := h.state
  obtain ⟨root', hstate'⟩ := h'.state
  exact ⟨h.leaves.unique h'.leaves, (hstate.unique hstate').1⟩

end Layout

section Solo

variable [SerdeJson LogConfig] [SerdeJson LogState] [Base64] [RustFmt]
  {inv : World Who Event → Prop} {faultless : Bool} {w : World Who Event}

/-- Nothing changed since the state was read. -/
def StateRead (w : World Who Event) (dir : Path) (bytes : Bytes) (w' : World Who Event) : Prop :=
  w' = w ∧ w.fs.file (state_path dir) = some bytes

/-- Nothing changed since the leaves were listed. -/
def LeavesListed (w : World Who Event) (dir : Path) (bytes : Bytes) (names : List Name) (w' : World Who Event) : Prop :=
  w' = w ∧ w.fs.file (state_path dir) = some bytes ∧ w.fs.find (leaves_dir dir) = some .directory ∧
    names.Perm (w.fs.children (leaves_dir dir))

/-- Reading a log directory alone. -/
theorem read_log_solo {post : Outcome CliError (LogStore × UInt64 × U8Array 32) → World Who Event → Prop}
    (hdone : ∀ store size root, Found w.fs.view dir store size root → post (.done (store, size, root)) w)
    (hfail : (faultless = true → ∀ n size, ¬ Parses w.fs.view dir n size) → ∀ e, post (.failed e) w)
    (hpanic : ∀ n size, Parses w.fs.view dir n size → MAX_LEAVES < n → post .panicked w) :
    Keeps who (solo inv faultless) post (LogStore.read_log dir) w := by
  have hlegible : faultless = true → ∀ n size, Parses w.fs.view dir n size →
      Legible (solo inv faultless) dir (· = w) (StateRead w dir) (LeavesListed w dir) := by
    intro hfaultless n size hparses
    refine ⟨?_, ?_, fun bytes => ⟨fun op choice w' hallowed => hallowed hfaultless, ?_, ?_, ?_⟩⟩
    · rintro _ rfl _
      obtain ⟨origin, bytes, hfile, hparse⟩ := hparses.config
      exact ⟨bytes, origin, Fs.view_eq_file_iff.mp hfile, hparse⟩
    · rintro _ rfl _
      obtain ⟨root, bytes, root_hash, hfile, hparse, hroot⟩ := hparses.state
      exact ⟨bytes, Fs.view_eq_file_iff.mp hfile, _, root, hparse, hroot⟩
    · rintro _ ⟨rfl, _⟩ _
      exact Fs.view_eq_directory_iff.mp hparses.leaves.directory
    · rintro names _ ⟨rfl, _, _, hnames⟩ _
      exact ⟨n, hparses.leaves.bound, hparses.leaves.perm_visible hnames⟩
    · rintro names _ index ⟨rfl, _, _, hnames⟩ _ hmem
      have hvisible : leaf_entry index ∈ visible names := List.mem_filter.mpr ⟨hmem, by simp [hidden_leaf_entry]⟩
      obtain ⟨i, hi, hindex⟩ := mem_leaf_entries_iff.mp ((hparses.leaves.perm_visible hnames).mem_iff.mp hvisible)
      obtain rfl := leaf_entry_injective hindex
      obtain ⟨leaf, hleaf⟩ := hparses.leaves.files i hi
      rw [Fs.view_eq_file_iff.mp hleaf]
      rfl
  refine read_log_keeps (Looks.solo rfl (· = w)) (Looks.solo rfl _) (Looks.solo rfl _)
    (fun bytes => Looks.solo rfl (StateRead w dir bytes)) (fun _ _ _ => Looks.solo rfl _)
    (fun bytes names _ => Looks.solo rfl (LeavesListed w dir bytes names)) (fun _ _ _ => Looks.solo rfl _)
    ?_ ?_ ?_ ?_ ?_ rfl
  · rintro _ bytes rfl _ hfile
    exact ⟨rfl, hfile⟩
  · rintro _ bytes names ⟨rfl, hfile⟩ _ hdirectory hnames
    exact ⟨rfl, hfile, hdirectory, hnames⟩
  · intro hbroken w' e hw' _
    have hsame : w' = w := by
      obtain rfl | ⟨_, rfl, _⟩ | ⟨_, _, rfl, _⟩ := hw' <;> rfl
    rw [hsame]
    exact hfail (fun hfaultless n size hparses => hbroken (hlegible hfaultless n size hparses)) e
  · rintro w' bytes names n ⟨hw', hfile, hdirectory, hnames⟩ _ ⟨origin, _, config_bytes, rfl, _, hconfig, hparse⟩
      ⟨size, root, root_hash, hstate, hroot⟩ hover
    rw [hw']
    refine hpanic n size ⟨⟨origin, config_bytes, Fs.view_eq_file_iff.mpr hconfig, hparse⟩,
      ⟨root, bytes, root_hash, Fs.view_eq_file_iff.mpr hfile, hstate, hroot⟩, ?_⟩ hover.large
    refine numbered_of_children hdirectory hnames hover.entries fun i hi => ?_
    obtain ⟨_, ⟨rfl, _⟩, _, hsome⟩ := hover.files i hi
    exact hsome
  · rintro w' bytes names store size root ⟨hw', hfile, hdirectory, hnames⟩ _ hobserved
    rw [hw']
    obtain ⟨hdir, ⟨_, config_bytes, rfl, _, hconfig, hparse⟩, ⟨root_hash, hstate, hroot⟩, hleaves⟩ := hobserved
    refine hdone store size root ⟨hdir, ⟨config_bytes, Fs.view_eq_file_iff.mpr hconfig, hparse⟩, ?_,
      ⟨bytes, root_hash, Fs.view_eq_file_iff.mpr hfile, hstate, hroot⟩⟩
    refine listed_of_children hleaves.room hdirectory hnames hleaves.entries fun i leaf hleaf => ?_
    obtain ⟨_, _, ⟨rfl, _⟩, _, _, hleafFile⟩ := hleaves.files i leaf hleaf
    exact hleafFile

variable [CtMerkle] [BuildProfile] {post : Outcome CliError LogStore → World Who Event → Prop}

/-- How opening ends after the state was repaired or not. -/
def Repaired (post : Outcome CliError LogStore → World Who Event → Prop) (store : LogStore) :
    Outcome CliError Unit → World Who Event → Prop
  | .done () => post (.done store)
  | .failed e => post (.failed e)
  | .panicked => post .panicked

/-- Opening a log directory alone. -/
theorem open_solo (hpinned : ∀ store size root, Found w.fs.view dir store size root → Pinned store.leaves size root →
      post (.done store) w)
    (hrepair : ∀ store size root, Found w.fs.view dir store size root → OneMore store.leaves size root →
      Keeps who (solo inv faultless) (Repaired post store) (write_state dir store.tree.root) w)
    (hbroken : (faultless = true → ∀ store size root, Found w.fs.view dir store size root →
      ¬ Pinned store.leaves size root ∧ ¬ OneMore store.leaves size root) →
      (∀ e, post (.failed e) w) ∧ post .panicked w) :
    Keeps who (solo inv faultless) post (LogStore.openLog dir) w := by
  have hcrowded : ∀ n size, Parses w.fs.view dir n size → MAX_LEAVES < n → post .panicked w := by
    intro n size hparses hlarge
    refine (hbroken fun _ store size' root hfound => ?_).2
    obtain ⟨rfl, _⟩ := hparses.unique hfound.parses
    exact absurd hfound.leaves.room (not_le.mpr hlarge)
  rw [LogStore.openLog_eq]
  refine Keeps.bind (read_log_solo (fun store size root hfound => ?_) (fun hbad => ?_) hcrowded)
  · change Keeps who (solo inv faultless) post (store.check_against_state size root >>= fun _ => pure store) w
    obtain ⟨hcheck, hmatch⟩ | ⟨hcheck, hmatch⟩ | ⟨hcheck, hno⟩ :=
      @check_against_state_cases Who Event _ _ _ _ _ store size root hfound.leaves.room
    · rw [hcheck]
      exact hpinned store size root hfound hmatch
    · rw [hcheck, hfound.dir_eq]
      refine Keeps.bind ((hrepair store size root hfound hmatch).mono fun out w' hout => ?_)
      cases out with
      | done u => exact hout
      | failed e => exact hout
      | panicked => exact hout
    · have hbroken' := hbroken fun _ store' size' root' hfound' => by
        obtain ⟨rfl, rfl⟩ := hfound.state.unique hfound'.state
        rw [← hfound.leaves.unique hfound'.leaves]
        exact hno
      obtain ⟨e, hcheck⟩ | ⟨hcheck, _⟩ := hcheck
      · rw [hcheck]
        exact hbroken'.1 e
      · rw [hcheck]
        exact hbroken'.2
  · exact (hbroken fun hfaultless store size root hfound => absurd hfound.parses (hbad hfaultless _ _)).1

/-- What a successful open has read. -/
theorem found_of_open {w : World Who Event} {choices : List Choice} {store : LogStore}
    (h : (run who (LogStore.openLog dir) choices w).outcome = some (.done store)) :
    ∃ size root, Found w.fs.view dir store size root ∧ (Pinned store.leaves size root ∨ OneMore store.leaves size root) := by
  have hkeeps : Keeps who (solo (fun _ => True) false) (fun out _ => ∀ store, out = .done store →
      ∃ size root, Found w.fs.view dir store size root ∧
        (Pinned store.leaves size root ∨ OneMore store.leaves size root)) (LogStore.openLog dir) w := by
    refine open_solo ?_ ?_ ?_
    · rintro store size root hfound hpinned _ ⟨⟩
      exact ⟨size, root, hfound, .inl hpinned⟩
    · intro store size root hfound honeMore
      refine keeps_of_forall (fun out w => ?_) _ w
      cases out with
      | done u =>
        rintro _ ⟨⟩
        exact ⟨size, root, hfound, .inr honeMore⟩
      | failed e => rintro _ ⟨⟩
      | panicked => rintro _ ⟨⟩
    · exact fun _ => ⟨by rintro e _ ⟨⟩, by rintro _ ⟨⟩⟩
  exact (run_solo hkeeps trivial).2 _ h store rfl

section Settled

variable [Sha2] {origin : Str}

/-- The state file pins exactly the leaves that are listed. -/
structure Settled (v : Path → Option Entry) (dir : Path) (origin : Str) (leaves : List Bytes) : Prop where
  config : Configured v dir origin
  listed : Listed v dir leaves
  state : StatePins v dir (UInt64.ofNat leaves.length) (rfc6962.mth sha256_hasher leaves)

variable [Rfc6962CtMerkle]

/-- A handle on the leaves of a directory. -/
structure HandleOn (dir : Path) (origin : Str) (leaves : List Bytes) (store : LogStore) : Prop where
  dir_eq : store.dir = dir
  origin_eq : store.origin = origin
  leaves_eq : store.leaves = leaves

/-- A settled directory opens with its leaves, and is not changed. -/
theorem open_settled (h : Settled w.fs.view dir origin leaves) :
    Completes who (fun out w' => w' = w ∧ ∃ store, out = .done store ∧ HandleOn dir origin leaves store)
      (LogStore.openLog dir) w := by
  have hsize : (UInt64.ofNat leaves.length).toNat = leaves.length := toNat_ofNat_of_lt h.listed.lt
  refine open_solo (fun store size root hfound _ => ?_) (fun store size root hfound honeMore => ?_) fun hbroken => ?_
  · exact ⟨rfl, store, rfl, hfound.dir_eq, hfound.config.unique h.config, hfound.leaves.unique h.listed⟩
  · obtain ⟨rfl, rfl⟩ := hfound.state.unique h.state
    have hlength := honeMore.1
    rw [hfound.leaves.unique h.listed, hsize] at hlength
    omega
  · have hno := (hbroken rfl ⟨dir, origin, leaves, ⟨leaves⟩, rfl⟩ _ _ ⟨rfl, h.config, h.listed, h.state⟩).1
    exact absurd ⟨hsize.symm, Rfc6962CtMerkle.root_eq leaves⟩ hno

end Settled

end Solo

end lys
