import Lys.Checkpoint.Body
import Lys.Cli.Error

open rust effect posix

namespace lys

def LOG_DIR_FORMAT : Str := "lys/log-dir/v1".toList

/-- Width of a leaf filename: `u64::MAX` has 20 decimal digits. -/
def LEAF_NAME_WIDTH : Nat := 20

/-- `log.json`, the log directory's immutable identity. -/
structure LogConfig where
  format : Str
  origin : Str
deriving DecidableEq

/-- `state.json`, the pinned size and root after the last append. -/
structure LogState where
  tree_size : UInt64
  root_hash : Str
deriving DecidableEq

/-- An open, integrity-verified log directory. The tree is the one of the leaves. -/
structure LogStore where
  dir : Path
  origin : Str
  leaves : List Bytes
  tree : AppendOnlyTree
  tree_leaves : tree.leaves = leaves
deriving DecidableEq

def config_path (dir : Path) : Path := dir ++ [component "log.json"]

def state_path (dir : Path) : Path := dir ++ [component "state.json"]

def tmp_path (dir : Path) : Path := dir ++ [component "state.json.tmp"]

def leaves_dir (dir : Path) : Path := dir ++ [component "leaves"]

/-- The file name of a leaf: its index in 20 decimal digits. -/
def leaf_name (index : UInt64) : Str := List.leftpad LEAF_NAME_WIDTH '0' (u64_to_string index)

def leaf_path (dir : Path) (index : UInt64) : Path := leaves_dir dir ++ [as_bytes (leaf_name index)]

variable {Who Event : Type}

/-- A local-state struct as pretty JSON with a trailing newline. -/
def state_json_bytes {T : Type} [SerdeJson T] (value : T) (what : String) : CliResult Bytes := do
  let json ← (SerdeJson.to_string_pretty value).mapError (.JsonSerialize what)
  return as_bytes (json ++ ['\n'])

/-- The pinned root of `state.json`: canonical standard base64 of exactly 32 bytes. -/
def decode_pinned_root [Base64] (dir : Path) (root_b64 : Str) : CliResult (U8Array 32) :=
  ok_or ((Base64.decode root_b64).toOption.bind (U8Array.try_from 32))
    (.LogDirInvalid dir "state.json root_hash is not standard base64 of exactly 32 bytes")

section Format

variable [RustFmt]

/-- Parses a local-state JSON file. -/
def parse_state_file {T : Type} [SerdeJson T] (dir path : Path) (what : String) : Process Who Event T := do
  let bytes ← read_file path what
  Prog.of_except ((SerdeJson.from_slice bytes).mapError fun e => .LogDirInvalid dir s!"{what} is malformed: {e}")

/-- Rewrites `state.json` for a root: a temporary file, then a rename. -/
def write_state [Base64] [SerdeJson LogState] (dir : Path) (root : RootHash) : Process Who Event Unit := do
  let (root_hash, tree_size) := root.to_parts
  let state : LogState := { tree_size, root_hash := Base64.encode root_hash.as_slice }
  let json ← Prog.of_except (state_json_bytes state "log state")
  write_file (tmp_path dir) json "log state file"
  (fs.rename (tmp_path dir) (state_path dir)).map_error fun source =>
    .Io s!"failed to atomically replace log state file {RustFmt.display (state_path dir)}" source

/-- The error of an unexpected entry in `leaves/`. -/
def invalid_leaf_entry (dir : Path) (name : Str) : CliError :=
  .LogDirInvalid dir
    s!"unexpected entry {RustFmt.debug name} in leaves/: leaf names are exactly {LEAF_NAME_WIDTH} decimal digits"

/-- The indices of the entries of `leaves/`, in the order of the listing. -/
def read_indices (dir : Path) : Listing → List UInt64 → Process Who Event (List UInt64)
  | [], indices => pure indices
  | .error source :: _, _ =>
    .fail (.Io s!"failed to read leaves directory {RustFmt.display (leaves_dir dir)}" source)
  | .ok name :: entries, indices =>
    match from_utf8 name with
    | none => .fail (invalid_leaf_entry dir (RustFmt.to_string_lossy name))
    | some text =>
      if text.head? = some '.' then read_indices dir entries indices
      else if name.length ≠ LEAF_NAME_WIDTH ∨ ¬ text.all Char.isDigit then .fail (invalid_leaf_entry dir text)
      else match parse_u64 text with
        | .error _ => .fail (invalid_leaf_entry dir text)
        | .ok index => do
          if ← call (.is_file (leaves_dir dir ++ [name])) then read_indices dir entries (indices ++ [index])
          else .fail (invalid_leaf_entry dir text)

/-- The sorted indices are exactly `0..n`. -/
def check_contiguous (dir : Path) : UInt64 → List UInt64 → CliResult Unit
  | _, [] => pure ()
  | expected, index :: indices => do
    reject_if (index ≠ expected)
      (.LogDirInvalid dir s!"leaves are not contiguous: expected leaf index {expected}, found {index}")
    check_contiguous dir (expected + 1) indices

/-- Reads the leaf files of the indices in order. -/
def read_leaf_files (dir : Path) : List UInt64 → List Bytes → Process Who Event (List Bytes)
  | [], leaves => pure leaves
  | index :: indices, leaves => do
    let leaf ← read_file (leaf_path dir index) "leaf file"
    read_leaf_files dir indices (leaves ++ [leaf])

/-- Enumerates and validates `leaves/` and reads the leaves in index order. -/
def read_leaves (dir : Path) : Process Who Event (List Bytes) := do
  let context := s!"failed to read leaves directory {RustFmt.display (leaves_dir dir)}"
  let entries ← Prog.of_except ((← call (.read_dir (leaves_dir dir))).mapError (CliError.Io context))
  let indices ← read_indices dir entries []
  let indices := indices.insertionSort (· ≤ ·)
  Prog.of_except (check_contiguous dir 0 indices)
  -- the capacity of the vector of leaves
  if indices.length > MAX_LEAVES then .panic
  read_leaf_files dir indices []

end Format

namespace LogStore

/-- The tree over the first `old_size` leaves. -/
def prefix_tree (store : LogStore) (old_size : UInt64) : CliResult AppendOnlyTree := do
  reject_if (¬ old_size.toNat ≤ store.leaves.length)
    (.LogDirInvalid store.dir
      s!"prefix of size {old_size} requested but the log has {store.leaves.length} leaves")
  return AppendOnlyTree.reconstruct_from_raw_leaves (store.leaves.take old_size.toNat)

/-- The raw bytes of the leaf at an index. -/
def leaf_bytes (store : LogStore) (index : UInt64) : Option Bytes := store.leaves[index.toNat]?

variable [RustFmt] [Base64] [CtMerkle] [SerdeJson LogState]

/-- Creates a log directory with an origin. -/
def init [SerdeJson LogConfig] (dir : Path) (origin : Str) : Process Who Event Unit := do
  let empty_root := AppendOnlyTree.new.root
  let _ ← Prog.of_except ((CheckpointBody.from_root origin empty_root).mapError CliError.Trust)
  if ← call (.path_exists (config_path dir)) then
    .fail (.LogDirInvalid dir ("already initialized (log.json exists); the origin is pinned at init " ++
      "and a log directory is never re-initialized"))
  (fs.create_dir_all (leaves_dir dir)).map_error fun source =>
    CliError.Io s!"failed to create log directory {RustFmt.display dir}" source
  let config : LogConfig := { format := LOG_DIR_FORMAT, origin }
  let json ← Prog.of_except (state_json_bytes config "log config")
  write_file (config_path dir) json "log config file"
  write_state dir empty_root

/-- The handle after raw bytes are pushed to its tree and its leaves. -/
def push (store : LogStore) (leaf_bytes : Bytes) : LogStore :=
  ⟨store.dir, store.origin, store.leaves ++ [leaf_bytes], (store.tree.append_raw leaf_bytes).1,
    by simp [AppendOnlyTree.append_raw, store.tree_leaves]⟩

/-- Appends raw leaf bytes. The handle that is left behind goes with the new leaf's index
and hash, or with the error. -/
def append [Sha2] (store : LogStore) (leaf_bytes : Bytes) :
    Process Who Event (LogStore × CliResult (UInt64 × U8Array 32)) := do
  let index := store.tree.len
  let path := leaf_path store.dir index
  match ← call (.create_new path) with
  | .error source => return (store, .error (.Io s!"failed to create leaf file {RustFmt.display path}" source))
  | .ok inode =>
    match ← (fs.write_all inode leaf_bytes.length 0 leaf_bytes).attempt with
    | .error source => return (store, .error (.Io s!"failed to write leaf file {RustFmt.display path}" source))
    | .ok () =>
      -- the capacity of the vectors behind the tree and the leaves
      if store.leaves.length + 1 > MAX_LEAVES then .panic
      let store := store.push leaf_bytes
      match ← (write_state store.dir store.tree.root).attempt with
      | .error e => return (store, .error e)
      | .ok () => return (store, .ok (index, raw_leaf_hash leaf_bytes))

variable [BuildProfile]

/-- Compares the rebuilt tree with the pinned state, and advances the state over one leaf of
an interrupted append. -/
def check_against_state (store : LogStore) (pinned_size : UInt64) (pinned_root : U8Array 32) :
    Process Who Event Unit := do
  let (rebuilt_root, rebuilt_size) := store.tree.root.to_parts
  if rebuilt_size = pinned_size ∧ rebuilt_root = pinned_root then return ()
  let invalid : Process Who Event Unit := .fail (.LogDirInvalid store.dir
    (s!"leaves rebuild to tree size {rebuilt_size} with root " ++
      String.ofList (Base64.encode rebuilt_root.as_slice) ++ s!", but state.json pins tree size {pinned_size} " ++
      "with root " ++ String.ofList (Base64.encode pinned_root.as_slice)))
  if rebuilt_size = (← add_u64 pinned_size 1) then
    let prefixTree ← Prog.of_except (store.prefix_tree pinned_size)
    let (prefix_root, _) := prefixTree.root.to_parts
    if prefix_root = pinned_root then write_state store.dir store.tree.root else invalid
  else invalid

/-- Opens and verifies the log directory. -/
def openLog [SerdeJson LogConfig] (dir : Path) : Process Who Event LogStore := do
  if !(← call (.path_exists (config_path dir))) then .fail (.LogDirMissing dir)
  let config : LogConfig ← parse_state_file dir (config_path dir) "log.json"
  if config.format ≠ LOG_DIR_FORMAT then
    .fail (.LogDirInvalid dir
      s!"log.json format is {RustFmt.debug config.format}, expected {RustFmt.debug LOG_DIR_FORMAT}")
  let state : LogState ← parse_state_file dir (state_path dir) "state.json"
  let pinned_root ← Prog.of_except (decode_pinned_root dir state.root_hash)
  let leaves ← read_leaves dir
  let tree := AppendOnlyTree.reconstruct_from_raw_leaves leaves
  let store : LogStore := ⟨dir, config.origin, leaves, tree, by simp [tree]⟩
  store.check_against_state state.tree_size pinned_root
  return store

end LogStore

end lys
