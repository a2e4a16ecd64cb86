import Lys.Checkpoint.Spec
import Lys.Cli.Seal
import Lys.Log.Store
import Lys.Tlog.Build

open rust effect posix

namespace lys

deriving instance DecidableEq for Ed25519Identity

/-- What a command on a log directory notes beside its calls: that it started, the handle it
opened, the leaf it appended, the notes it signed, and its lines on the console. -/
inductive LogEvent [Ed25519Dalek] where
  | started
  | opened (store : LogStore)
  | appended (index : UInt64) (leaf : Bytes)
  | signed (identity : Ed25519Identity) (root : RootHash) (note : Str)
  | console (line : Console)
deriving DecidableEq

variable {Who : Type} [Ed25519Dalek]

def note_event (event : LogEvent) : Process Who LogEvent Unit := call (.record event)

def print_line (line : String) : Process Who LogEvent Unit := note_event (.console (.stdout line))

/-- A printed hash. -/
def print_hash (label : String) (hash : U8Array 32) : Process Who LogEvent Unit :=
  print_line (label ++ " (sha256): " ++ String.ofList (hex_lower hash.as_slice))

section Commands

variable [RustFmt] [IoErrorText] [Sha2] [Base64] [CtMerkle] [SerdeJson LogConfig] [SerdeJson LogState]
  [SerdeJson InclusionProofArtifact] [SerdeJson ConsistencyProofArtifact] [BuildProfile]

/-- Writes an artifact as pretty JSON with a trailing newline. -/
def write_artifact {T : Type} [SerdeJson T] (out : Path) (artifact : T) (what : String) : Process Who LogEvent Unit := do
  let json ← Prog.of_except ((SerdeJson.to_string_pretty artifact).mapError (CliError.JsonSerialize what))
  write_file out (as_bytes (json ++ ['\n'])) what

/-- `LogStore::open` of a command that starts with it. -/
def start_on (dir : Path) : Process Who LogEvent LogStore := do
  note_event .started
  let store ← LogStore.openLog dir
  note_event (.opened store)
  return store

/-- `lys log append` on an open directory. -/
def append_to (store : LogStore) (leaf : Path) : Process Who LogEvent Unit := do
  let leaf_bytes ← read_file leaf "leaf file"
  let (store, appended) ← store.append leaf_bytes
  let (index, leaf_hash) ← Prog.of_except appended
  note_event (.appended index leaf_bytes)
  let (root, tree_size) := store.tree.root.to_parts
  print_line s!"leaf index: {index}"
  print_line ("leaf hash (sha256, rfc6962): " ++ String.ofList (hex_lower leaf_hash.as_slice))
  print_line s!"tree size: {tree_size}"
  print_hash "root hash" root

/-- `lys log checkpoint` on an open directory. -/
def checkpoint_of (store : LogStore) (key out : Path) : Process Who LogEvent Unit := do
  let identity ← load_identity key
  let body ← Prog.of_except ((CheckpointBody.from_root store.origin store.tree.root).mapError CliError.Trust)
  let note ← Prog.of_except ((sign_note body.encode store.origin identity).mapError CliError.Trust)
  note_event (.signed identity store.tree.root note)
  write_file out (as_bytes note) "checkpoint note file"
  let verifier ← Prog.of_except
    ((NoteVerifierKey.new store.origin identity.public_key_bytes).mapError CliError.Trust)
  print_line ("origin: " ++ String.ofList body.origin)
  print_line s!"tree size: {body.tree_size}"
  print_hash "root hash" body.root_hash
  print_line s!"checkpoint written: {RustFmt.display out}"
  print_line ("verifier key (signed-note): " ++ String.ofList verifier.to_spec)

/-- `lys log prove inclusion` on an open directory. -/
def inclusion_of (store : LogStore) (key : Path) (leaf_index : UInt64) (out : Path) : Process Who LogEvent Unit := do
  let identity ← load_identity key
  let leaf_bytes ← Prog.of_except (ok_or (store.leaf_bytes leaf_index) (.Trust (.MerkleTree
    s!"inclusion proof requested for leaf index {leaf_index} but tree has {store.tree.len} leaves")))
  let artifact ← Prog.of_except
    ((build_inclusion_artifact store.tree leaf_bytes store.origin identity leaf_index).mapError CliError.Trust)
  note_event (.signed identity store.tree.root artifact.checkpoint)
  write_artifact out artifact "inclusion proof artifact"
  let (root, tree_size) := store.tree.root.to_parts
  print_line s!"leaf index: {leaf_index}"
  print_line s!"tree size: {tree_size}"
  print_hash "root hash" root
  print_line s!"artifact written: {RustFmt.display out}"

/-- `lys log prove consistency` on an open directory. -/
def consistency_of (store : LogStore) (key : Path) (old_size : UInt64) (out : Path) : Process Who LogEvent Unit := do
  let identity ← load_identity key
  let new_size := store.tree.len
  if old_size ≥ new_size then
    .fail (.Trust (.LogArtifactEncoding ("consistency artifact requires old size strictly below the current " ++
      s!"tree size: old={old_size}, current={new_size}")))
  let old_tree ← Prog.of_except (store.prefix_tree old_size)
  let artifact ← Prog.of_except
    ((build_consistency_artifact old_tree store.tree store.origin identity).mapError CliError.Trust)
  note_event (.signed identity old_tree.root artifact.checkpoint_1)
  note_event (.signed identity store.tree.root artifact.checkpoint_2)
  write_artifact out artifact "consistency proof artifact"
  let (old_root, _) := old_tree.root.to_parts
  let (new_root, _) := store.tree.root.to_parts
  print_line s!"old tree size: {old_size}"
  print_line s!"new tree size: {new_size}"
  print_hash "old root hash" old_root
  print_hash "new root hash" new_root
  print_line s!"artifact written: {RustFmt.display out}"

/-- The commands that work on a log directory that is there. -/
inductive LogCommand where
  | append (leaf : Path)
  | checkpoint (key out : Path)
  | prove_inclusion (key : Path) (leaf_index : UInt64) (out : Path)
  | prove_consistency (key : Path) (old_size : UInt64) (out : Path)

namespace LogCommand

/-- The file that a command is told to write. -/
def out : LogCommand → Option Path
  | .append _ => none
  | .checkpoint _ out | .prove_inclusion _ _ out | .prove_consistency _ _ out => some out

def on (store : LogStore) : LogCommand → Process Who LogEvent Unit
  | .append leaf => append_to store leaf
  | .checkpoint key out => checkpoint_of store key out
  | .prove_inclusion key leaf_index out => inclusion_of store key leaf_index out
  | .prove_consistency key old_size out => consistency_of store key old_size out

/-- A command opens the directory and goes on with the handle. -/
def process (dir : Path) (command : LogCommand) : Process Who LogEvent Unit := do
  let store ← start_on dir
  command.on store

end LogCommand

end Commands

end lys
