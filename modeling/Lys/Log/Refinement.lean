import Lys.Log.Reference
import Lys.Log.Solo

open rust effect posix

namespace lys

section Calls

/-- What is done with an open handle. -/
inductive Use where
  | append (leaf : Bytes)
  | prefix_tree (size : UInt64)
  | leaf_bytes (index : UInt64)
  | root

/-- What the caller sees. -/
inductive Reply where
  | opened (leaves : List Bytes)
  | appended (result : Option (UInt64 × U8Array 32))
  | prefix_root (root : Option RootHash)
  | bytes (leaf : Option Bytes)
  | root (root : RootHash)
deriving DecidableEq

variable [Sha2] [RustFmt] [Base64] [CtMerkle] [SerdeJson LogState] {Who Event : Type}

def use_handle (store : LogStore) : Use → Process Who Event (LogStore × Reply)
  | .append leaf => do
    let (store, result) ← store.append leaf
    return (store, .appended result.toOption)
  | .prefix_tree size => return (store, .prefix_root ((store.prefix_tree size).toOption.map AppendOnlyTree.root))
  | .leaf_bytes index => return (store, .bytes (store.leaf_bytes index))
  | .root => return (store, .root store.tree.root)

def use_all (store : LogStore) : List Use → Process Who Event (List Reply)
  | [] => pure []
  | use :: uses => do
    let (store, reply) ← use_handle store use
    let replies ← use_all store uses
    return reply :: replies

/-- Handles one after the other, each with what is done with it. -/
def sessions [SerdeJson LogConfig] [BuildProfile] (dir : Path) : List (List Use) → Process Who Event (List Reply)
  | [] => pure []
  | uses :: rest => do
    let store ← LogStore.openLog dir
    let replies ← use_all store uses
    let later ← sessions dir rest
    return .opened store.leaves :: (replies ++ later)

def log_run [SerdeJson LogConfig] [BuildProfile] (dir : Path) (origin : Str) (blocks : List (List Use)) :
    Process Who Event (List Reply) := do
  LogStore.init dir origin
  sessions dir blocks

end Calls

section Abstract

variable [Sha2]

/-- The size and the root of the RFC 6962 tree of a list. -/
def list_root (leaves : List Bytes) : RootHash :=
  ⟨rfc6962.mth sha256_hasher leaves, UInt64.ofNat leaves.length⟩

/-- The calls on an append-only list. -/
def list_use (leaves : List Bytes) : Use → List Bytes × Reply
  | .append leaf => (leaves ++ [leaf], .appended (some (UInt64.ofNat leaves.length, sha256 (0x00 :: leaf))))
  | .prefix_tree size => (leaves, .prefix_root
      (if size.toNat ≤ leaves.length then some (list_root (leaves.take size.toNat)) else none))
  | .leaf_bytes index => (leaves, .bytes leaves[index.toNat]?)
  | .root => (leaves, .root (list_root leaves))

def list_uses (leaves : List Bytes) : List Use → List Bytes × List Reply
  | [] => (leaves, [])
  | use :: uses =>
    let (leaves, reply) := list_use leaves use
    let (leaves, replies) := list_uses leaves uses
    (leaves, reply :: replies)

def list_sessions (leaves : List Bytes) : List (List Use) → List Bytes × List Reply
  | [] => (leaves, [])
  | uses :: rest =>
    let (used, replies) := list_uses leaves uses
    let (later, further) := list_sessions used rest
    (later, .opened leaves :: (replies ++ further))

end Abstract

section Represents

variable [Sha2] [Base64] [SerdeJson LogConfig] [SerdeJson LogState]

/-- A log directory that holds a list: `state.json` pins it, and `leaves/` has one file for
each leaf and nothing else. -/
structure Represents (v : Path → Option Entry) (dir : Path) (origin : Str) (leaves : List Bytes) : Prop where
  config : Configured v dir origin
  state : StatePins v dir (list_root leaves).num_leaves (list_root leaves).root_hash
  directory : v (leaves_dir dir) = some .directory
  files : ∀ name entry, v (leaves_dir dir ++ [name]) = some entry ↔
    ∃ i leaf, leaves[i]? = some leaf ∧ name = leaf_entry (UInt64.ofNat i) ∧ entry = .file leaf
  tmp : v (tmp_path dir) = none

variable {v : Path → Option Entry} {dir : Path} {origin : Str} {leaves : List Bytes}

theorem Represents.listed (h : Represents v dir origin leaves) (hroom : leaves.length ≤ MAX_LEAVES) :
    Listed v dir leaves where
  room := hroom
  directory := h.directory
  files i leaf hleaf := (h.files _ _).mpr ⟨i, leaf, hleaf, rfl, rfl⟩
  only name _ hsome := by
    obtain ⟨entry, hentry⟩ := Option.ne_none_iff_exists'.mp hsome
    obtain ⟨i, leaf, hleaf, rfl, _⟩ := (h.files _ _).mp hentry
    exact mem_leaf_entries_iff.mpr ⟨i, (List.getElem?_eq_some_iff.mp hleaf).1, rfl⟩

theorem Represents.next_eq_none (h : Represents v dir origin leaves) (hroom : leaves.length ≤ MAX_LEAVES) :
    v (leaf_path dir (UInt64.ofNat leaves.length)) = none := by
  by_contra hsome
  exact absurd (((h.listed hroom).isSome_iff (h.listed hroom).lt).mp hsome) (lt_irrefl _)

variable [StandardBase64] [LawfulSerdeJson LogState]

/-- An empty list after `init`. -/
theorem represents_nil {json : Bytes} (hconfig : Configured v dir origin) (hjson : StateBytes (list_root []) json)
    (hstate : v (state_path dir) = some (.file json)) (hdirectory : v (leaves_dir dir) = some .directory)
    (hempty : ∀ name, v (leaves_dir dir ++ [name]) = none) (htmp : v (tmp_path dir) = none) :
    Represents v dir origin [] where
  config := hconfig
  state := statePins_of_stateBytes hjson hstate
  directory := hdirectory
  files name entry := by simp [hempty name]
  tmp := htmp

/-- One more leaf after `append`. -/
theorem Represents.append {leaf json : Bytes} (h : Represents v dir origin leaves) (hroom : leaves.length < MAX_LEAVES)
    (hjson : StateBytes (list_root (leaves ++ [leaf])) json) :
    Represents (stated (Function.update v (leaf_path dir (UInt64.ofNat leaves.length)) (some (.file leaf))) dir json)
      dir origin (leaves ++ [leaf]) := by
  have hentry : ∀ name, stated (Function.update v (leaf_path dir (UInt64.ofNat leaves.length)) (some (.file leaf)))
      dir json (leaves_dir dir ++ [name]) =
      Function.update v (leaf_path dir (UInt64.ofNat leaves.length)) (some (.file leaf)) (leaves_dir dir ++ [name]) :=
    fun name => stated_eq_of_ne (leaves_entry_ne _ _) (leaves_entry_ne _ _)
  refine ⟨?_, statePins_of_stateBytes hjson stated_state_path, ?_, fun name entry => ?_, stated_tmp_path⟩
  · obtain ⟨bytes, hfile, hparse⟩ := h.config
    refine ⟨bytes, ?_, hparse⟩
    rw [stated_eq_of_ne config_path_ne_state_path config_path_ne_tmp_path,
      Function.update_of_ne config_path_ne_leaf_path, hfile]
  · rw [stated_eq_of_ne state_path_ne_leaves_dir.symm tmp_path_ne_leaves_dir.symm,
      Function.update_of_ne leaves_dir_ne_leaf_path, h.directory]
  · rw [hentry]
    by_cases hname : name = leaf_entry (UInt64.ofNat leaves.length)
    · subst hname
      rw [← leaf_path_eq, Function.update_self]
      constructor
      · rintro ⟨⟩
        exact ⟨leaves.length, leaf, by simp, rfl, rfl⟩
      · rintro ⟨i, leaf', hleaf', hname, rfl⟩
        have hi : i < leaves.length + 1 := by simpa using (List.getElem?_eq_some_iff.mp hleaf').1
        have hbound : MAX_LEAVES < 2 ^ 63 := by decide
        obtain rfl := ofNat_inj (by omega) (by omega) (leaf_entry_injective hname)
        rw [List.getElem?_concat_length] at hleaf'
        rw [Option.some.inj hleaf']
    · have hne : leaves_dir dir ++ [name] ≠ leaf_path dir (UInt64.ofNat leaves.length) := by
        rw [leaf_path_eq]
        simpa using hname
      rw [Function.update_of_ne hne, h.files]
      constructor
      · rintro ⟨i, leaf', hleaf', rfl, rfl⟩
        exact ⟨i, leaf', by rw [List.getElem?_append_left (List.getElem?_eq_some_iff.mp hleaf').1, hleaf'], rfl, rfl⟩
      · rintro ⟨i, leaf', hleaf', rfl, rfl⟩
        refine ⟨i, leaf', ?_, rfl, rfl⟩
        obtain hlt | rfl | hgt := lt_trichotomy i leaves.length
        · rwa [List.getElem?_append_left hlt] at hleaf'
        · exact absurd rfl hname
        · rw [List.getElem?_eq_none (by simp; omega)] at hleaf'
          cases hleaf'

end Represents

section Refines

variable [Sha2] [Base64] [StandardBase64] [SerdeJson LogConfig] [LawfulSerdeJson LogConfig] [SerdeJson LogState]
  [LawfulSerdeJson LogState] [CtMerkle] [Rfc6962CtMerkle] [RustFmt] {Who Event : Type} {who : Who} {dir : Path}
  {origin : Str} {leaves : List Bytes} {store : LogStore} {w : World Who Event}

/-- The world of a log directory that holds a list. -/
structure Holds (dir : Path) (origin : Str) (leaves : List Bytes) (w : World Who Event) : Prop where
  links : w.fs.NoHardLinks dir
  represents : Represents w.fs.view dir origin leaves

/-- A handle on a list. -/
structure Handle (dir : Path) (leaves : List Bytes) (store : LogStore) : Prop where
  dir_eq : store.dir = dir
  leaves_eq : store.leaves = leaves

omit [StandardBase64] [SerdeJson LogConfig] [LawfulSerdeJson LogConfig] [SerdeJson LogState] [LawfulSerdeJson LogState]
  [Base64] [RustFmt] in
theorem Handle.root_eq (h : Handle dir leaves store) : store.tree.root = list_root leaves := by
  rw [AppendOnlyTree.root_eq, AppendOnlyTree.len, store.tree_leaves, h.leaves_eq]
  rfl

omit [StandardBase64] [LawfulSerdeJson LogConfig] [LawfulSerdeJson LogState] in
/-- Opening a directory that holds a list gives the list and changes nothing. -/
theorem open_completes [BuildProfile] (h : Represents w.fs.view dir origin leaves) (hroom : leaves.length ≤ MAX_LEAVES) :
    Completes who (fun out w' => w' = w ∧ ∃ store, out = .done store ∧ Handle dir leaves store)
      (LogStore.openLog dir) w := by
  refine (open_settled ⟨h.config, h.listed hroom, h.state⟩).mono fun out w' hout => ?_
  obtain ⟨hsame, store, hstore, hhandle⟩ := hout
  exact ⟨hsame, store, hstore, hhandle.dir_eq, hhandle.leaves_eq⟩

omit [LawfulSerdeJson LogConfig] in
/-- Appending to a handle on the list adds the leaf to the directory and to the handle. -/
theorem append_completes {leaf : Bytes} (h : Holds dir origin leaves w) (hstore : Handle dir leaves store)
    (hroom : leaves.length < MAX_LEAVES) :
    Completes who (fun out w' => ∃ store', out = .done (store', .ok (UInt64.ofNat leaves.length, sha256 (0x00 :: leaf))) ∧
      Handle dir (leaves ++ [leaf]) store' ∧ Holds dir origin (leaves ++ [leaf]) w') (store.append leaf) w := by
  obtain ⟨rfl, rfl⟩ := hstore
  have hlen := store.tree_len
  have hpush : Handle store.dir (store.leaves ++ [leaf]) (store.push leaf) := ⟨rfl, rfl⟩
  obtain ⟨json, hjson, _⟩ := exists_state_json_bytes (pinned_state (list_root (store.leaves ++ [leaf]))) "log state"
  have hnone := h.represents.next_eq_none hroom.le
  have hseen := Seen.refl h.links
  have hdirectory : w.fs.view store.dir = some .directory := by
    have hparent := hseen.parent (q := leaves_dir store.dir) (by simp [leaves_dir]) (by simp [h.represents.directory])
    rwa [leaves_dir, List.dropLast_concat] at hparent
  refine append_solo rfl rfl (show StateBytes _ json by rw [hpush.root_eq]; exact hjson) (fun _ _ _ _ => trivial) ?_ ?_ ?_ ?_ hseen
  · intro w' _ hw'
    refine ⟨store.push leaf, by rw [hlen]; rfl, hpush, hw'.links, ?_⟩
    rw [hw'.view, hlen]
    exact h.represents.append hroom hjson
  · intro v' w' e _ _ hclear
    rw [hlen, leaf_path_eq, List.dropLast_concat] at hclear
    obtain hsome | hparent := hclear rfl
    · exact absurd hnone hsome
    · exact absurd h.represents.directory hparent
  · intro v' w' e _ _ _ hobstructed
    obtain ⟨bytes, root_hash, hstate, _⟩ := h.represents.state
    obtain (htmp | hparent) | (hstate' | hparent) := hobstructed rfl
    · rw [h.represents.tmp] at htmp
      cases htmp
    · exact absurd (by rw [tmp_path, List.dropLast_concat, hdirectory]) hparent
    · rw [hstate] at hstate'
      cases hstate'
    · exact absurd (by rw [state_path, List.dropLast_concat, hdirectory]) hparent
  · intro hlarge
    omega

/-- The leaves that calls append. -/
def appended_by (uses : List Use) : Nat := uses.countP fun use => match use with
  | .append _ => true
  | _ => false

omit [LawfulSerdeJson LogConfig] in
/-- One use of a handle is the same use of the list. -/
theorem use_completes {use : Use} (h : Holds dir origin leaves w) (hstore : Handle dir leaves store)
    (hroom : leaves.length + appended_by [use] ≤ MAX_LEAVES) :
    Completes who (fun out w' => ∃ store', out = .done (store', (list_use leaves use).2) ∧
      Handle dir (list_use leaves use).1 store' ∧ Holds dir origin (list_use leaves use).1 w' ∧
      (list_use leaves use).1.length = leaves.length + appended_by [use]) (use_handle store use) w := by
  cases use with
  | append leaf =>
    have hroom' : leaves.length + 1 ≤ MAX_LEAVES := hroom
    refine Keeps.bind ((append_completes h hstore hroom').mono fun out w' hout => ?_)
    obtain ⟨store', rfl, hstore', hw'⟩ := hout
    exact ⟨store', rfl, hstore', hw', by simp [list_use, appended_by]⟩
  | prefix_tree size =>
    refine ⟨store, ?_, hstore, h, rfl⟩
    have hreply : (store.prefix_tree size).toOption.map AppendOnlyTree.root =
        if size.toNat ≤ leaves.length then some (list_root (leaves.take size.toNat)) else none := by
      split
      next hle =>
        rw [LogStore.prefix_tree_eq_ok (by rw [hstore.leaves_eq]; exact hle), hstore.leaves_eq]
        have hprefix : Handle dir (leaves.take size.toNat) ⟨dir, origin, leaves.take size.toNat, ⟨leaves.take size.toNat⟩, rfl⟩ :=
          ⟨rfl, rfl⟩
        exact congrArg some hprefix.root_eq
      next hlt =>
        obtain ⟨e, he⟩ := @LogStore.exists_prefix_tree_eq_error store size
          (by rw [hstore.leaves_eq]; exact Nat.not_le.mp hlt)
        rw [he]
        rfl
    rw [hreply]
    rfl
  | leaf_bytes index => exact ⟨store, by rw [LogStore.leaf_bytes, hstore.leaves_eq]; rfl, hstore, h, rfl⟩
  | root => exact ⟨store, by rw [hstore.root_eq]; rfl, hstore, h, rfl⟩

omit [LawfulSerdeJson LogConfig] in
theorem use_all_completes {uses : List Use} (h : Holds dir origin leaves w) (hstore : Handle dir leaves store)
    (hroom : leaves.length + appended_by uses ≤ MAX_LEAVES) :
    Completes who (fun out w' => out = .done (list_uses leaves uses).2 ∧ Holds dir origin (list_uses leaves uses).1 w' ∧
      (list_uses leaves uses).1.length = leaves.length + appended_by uses) (use_all store uses) w := by
  induction uses generalizing leaves store w with
  | nil => exact ⟨rfl, h, rfl⟩
  | cons use uses ih =>
    have hcount : appended_by (use :: uses) = appended_by [use] + appended_by uses := by
      rw [appended_by, List.countP_cons, Nat.add_comm, appended_by, appended_by, List.countP_singleton]
    rw [hcount] at hroom ⊢
    refine Keeps.bind ((use_completes h hstore (by omega)).mono fun out w' hout => ?_)
    obtain ⟨store', rfl, hstore', hw', hlength⟩ := hout
    refine Keeps.bind ((ih hw' hstore' (by omega)).mono fun out w'' hout => ?_)
    obtain ⟨rfl, hw'', hlength'⟩ := hout
    exact ⟨rfl, hw'', by simp only [list_uses]; omega⟩

omit [LawfulSerdeJson LogConfig] in
theorem sessions_complete [BuildProfile] {blocks : List (List Use)} (h : Holds dir origin leaves w)
    (hroom : leaves.length + appended_by blocks.flatten ≤ MAX_LEAVES) :
    Completes who (fun out w' => out = .done (list_sessions leaves blocks).2 ∧
      Holds dir origin (list_sessions leaves blocks).1 w') (sessions dir blocks) w := by
  induction blocks generalizing leaves w with
  | nil => exact ⟨rfl, h⟩
  | cons uses blocks ih =>
    have hcount : appended_by (uses :: blocks).flatten = appended_by uses + appended_by blocks.flatten := by
      rw [List.flatten_cons, appended_by, List.countP_append, appended_by, appended_by]
    rw [hcount] at hroom
    refine Keeps.bind ((open_completes h.represents (by omega)).mono fun out w' hout => ?_)
    obtain ⟨rfl, store, rfl, hstore⟩ := hout
    refine Keeps.bind ((use_all_completes h hstore (by omega)).mono fun out w' hout => ?_)
    obtain ⟨rfl, hw', hlength⟩ := hout
    refine Keeps.bind ((ih hw' (by omega)).mono fun out w'' hout => ?_)
    obtain ⟨rfl, hw''⟩ := hout
    have hopened : store.leaves = leaves := hstore.leaves_eq
    exact ⟨by rw [hopened]; rfl, hw''⟩

/-- Nothing stands in the directory, and no file above it. -/
structure Fresh (v : Path → Option Entry) (dir : Path) : Prop where
  absent : ∀ path, dir <+: path → path ≠ dir → v path = none
  open_above : ¬ Blocked v dir

omit [StandardBase64] [Sha2] [Base64] [SerdeJson LogConfig] [LawfulSerdeJson LogConfig] [SerdeJson LogState]
  [LawfulSerdeJson LogState] [CtMerkle] [Rfc6962CtMerkle] [RustFmt] in
theorem Fresh.links (h : Fresh w.fs.view dir) : w.fs.NoHardLinks dir := by
  intro p q inode hdir hp _
  have hfile := Fs.view_of_find_file hp
  by_cases hne : p = dir
  · exact absurd ⟨p, hne ▸ List.prefix_rfl, _, hfile⟩ h.open_above
  · rw [h.absent p hdir hne] at hfile
    cases hfile

/-- `init` of a fresh directory makes it hold the empty list. -/
theorem init_completes (hname : validate_note_name origin = .ok ()) (hfresh : Fresh w.fs.view dir) :
    Completes who (fun out w' => out = .done () ∧ Holds dir origin [] w') (LogStore.init dir origin) w := by
  obtain ⟨config, hconfig, hparse⟩ :=
    exists_state_json_bytes ({ format := LOG_DIR_FORMAT, origin } : LogConfig) "log config"
  obtain ⟨json, hjson, _⟩ := exists_state_json_bytes (pinned_state (list_root [])) "log state"
  have hempty : AppendOnlyTree.new.root = list_root [] := by
    rw [AppendOnlyTree.root_eq]
    rfl
  have habsent : ∀ name, w.fs.view (dir ++ [name]) = none := fun name =>
    hfresh.absent _ (List.prefix_append ..) (by simp)
  refine init_solo hname hconfig (show StateBytes _ json by rw [hempty]; exact hjson) (fun _ _ _ _ => trivial) ?_ ?_
    (Seen.refl hfresh.links)
  · intro v' w' hgrown hleaves hw'
    refine ⟨rfl, hw'.links, ?_⟩
    rw [hw'.view]
    refine represents_nil ⟨config, ?_, hparse⟩ hjson stated_state_path ?_ (fun name => ?_) stated_tmp_path
    · rw [stated_eq_of_ne config_path_ne_state_path config_path_ne_tmp_path, Function.update_self]
    · rw [stated_eq_of_ne state_path_ne_leaves_dir.symm tmp_path_ne_leaves_dir.symm,
        Function.update_of_ne config_path_ne_leaves_dir.symm, hleaves]
    · have hne : leaves_dir dir ++ [name] ≠ config_path dir := leaves_entry_ne _ _
      rw [stated_eq_of_ne (leaves_entry_ne _ _) (leaves_entry_ne _ _), Function.update_of_ne hne,
        hgrown.eq_of_not_prefix fun hprefix => by simpa using hprefix.length_le]
      refine hfresh.absent _ ?_ (by simp [leaves_dir])
      rw [leaves_dir, List.append_assoc]
      exact List.prefix_append ..
  · intro v' w' e _ _ hobstacle
    obtain hconfigPath | ⟨q, hq, bytes, hfile⟩ | htmp | hstate := hobstacle rfl
    · exact absurd (habsent _) hconfigPath
    · obtain hle | hlt := List.prefix_or_prefix_of_prefix hq (List.prefix_append dir [component "leaves"])
      · exact absurd ⟨q, hle, bytes, hfile⟩ hfresh.open_above
      · by_cases hdir : q = dir
        · exact absurd ⟨q, hdir ▸ List.prefix_rfl, bytes, hfile⟩ hfresh.open_above
        · rw [hfresh.absent q hlt hdir] at hfile
          cases hfile
    · rw [tmp_path, habsent] at htmp
      cases htmp
    · rw [state_path, habsent] at hstate
      cases hstate

/-- A log directory used without faults is an append-only list: every handle sees the list, every
call answers as the list does, and after it the directory holds the list. -/
theorem log_refines_list [BuildProfile] {blocks : List (List Use)} (hname : validate_note_name origin = .ok ())
    (hfresh : Fresh w.fs.view dir) (hroom : appended_by blocks.flatten ≤ MAX_LEAVES) :
    Completes who (fun out w' => out = .done (list_sessions [] blocks).2 ∧
      Represents w'.fs.view dir origin (list_sessions [] blocks).1) (log_run dir origin blocks) w := by
  refine Keeps.bind ((init_completes hname hfresh).mono fun out w' hout => ?_)
  obtain ⟨rfl, hw'⟩ := hout
  refine (sessions_complete hw' (by simpa using hroom)).mono fun out w'' hout => ?_
  exact ⟨hout.1, hout.2.represents⟩

end Refines

section

open reference

theorem fresh_empty_world : Fresh empty_world.fs.view log_dir := by
  refine ⟨fun path hpath _ => view_empty_fs ?_, ?_⟩
  · rintro rfl
    simp [log_dir] at hpath
  · rintro ⟨path, _, bytes, hfile⟩
    by_cases hpath : path = []
    · subst hpath
      cases hfile
    · rw [show empty_world.fs.view path = none from view_empty_fs hpath] at hfile
      cases hfile

/-- One handle appends "x" and "y" and looks back at the first leaf, a second one appends "z". -/
theorem log_refines_list_two_handles :
    Completes () (fun out w' => out = .done (list_sessions [] [[.append [0x78], .append [0x79], .prefix_tree 1],
        [.append [0x7a], .root]]).2 ∧
      Represents w'.fs.view log_dir "log".toList (list_sessions [] [[.append [0x78], .append [0x79], .prefix_tree 1],
        [.append [0x7a], .root]]).1)
      (log_run log_dir "log".toList [[.append [0x78], .append [0x79], .prefix_tree 1], [.append [0x7a], .root]])
      empty_world :=
  log_refines_list (by decide) fresh_empty_world (by decide)

end

end lys
