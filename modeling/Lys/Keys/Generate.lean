import Lys.Keys.Load

open rust effect posix

namespace lys

/-- `path.file_name()` -/
def file_name (path : Path) : Option Name := path.getLast?.filter fun name => name ≠ component ".."

/-- The name of the temporary file next to a key, of a process and its counter. -/
def tmp_name (file_name : Name) (pid : UInt32) (unique : UInt64) : Name :=
  file_name ++ as_bytes ('.' :: u64_to_string pid.toUInt64 ++ '.' :: u64_to_string unique ++ ".tmp".toList)

/-- Processes and their counters have names of their own. -/
theorem tmp_name_inj {name : Name} {pid pid' : UInt32} {unique unique' : UInt64} :
    tmp_name name pid unique = tmp_name name pid' unique' ↔ pid = pid' ∧ unique = unique' := by
  refine ⟨fun h => ?_, fun ⟨hpid, hunique⟩ => by rw [hpid, hunique]⟩
  have htake : ∀ (n : UInt64) (rest : Str), (u64_to_string n ++ '.' :: rest).takeWhile Char.isDigit = u64_to_string n :=
    fun n rest => by
      rw [List.takeWhile_append_of_pos fun c => isDigit_of_mem_u64_to_string, List.takeWhile_cons_of_neg (by decide),
        List.append_nil]
  have hstring : ∀ m n : UInt64, u64_to_string m = u64_to_string n → m = n := by
    intro m n h
    have hparse := parse_u64_to_string m
    rw [h, parse_u64_to_string] at hparse
    exact (Except.ok.inj hparse).symm
  have hsuffix := as_bytes_injective (List.append_cancel_left h)
  simp only [List.cons_append, List.append_assoc, List.cons.injEq, true_and] at hsuffix
  have hpid := congrArg (List.takeWhile Char.isDigit) hsuffix
  rw [htake, htake] at hpid
  rw [hpid, List.append_cancel_left_eq, List.cons.injEq, List.append_cancel_right_eq] at hsuffix
  exact ⟨UInt32.toUInt64_inj.mp (hstring _ _ hpid), hstring _ _ hsuffix.2⟩

variable {Who Event : Type} [Ed25519Dalek] [IoErrorText] [RustFmt]

/-- The error of a key file that cannot be written. -/
def write_error (e : IoError) : TrustError := .KeyManagement s!"failed to write identity key: {IoErrorText.to_string e}"

/-- Writes a seed to a file that is created for its owner only. -/
def write_identity_file (path : Path) (seed : U8Array 32) : Prog (Calls Who Event) TrustError Unit := do
  let inode ← Prog.of_except ((← call (.create path)).mapError write_error)
  (fs.write_all inode seed.as_slice.length 0 seed.as_slice).map_error write_error
  Prog.of_except ((← call (.set_permissions path)).mapError write_error)

/-- Removes a temporary key file, if that is possible. -/
def remove_tmp_file (tmp_path : Path) : Prog (Calls Who Event) TrustError Unit := do
  let _ ← call (.remove_file tmp_path)

/-- Writes a seed under its temporary name and links it to the key, without replacing another. -/
def persist (path tmp_path : Path) (seed : U8Array 32) : Prog (Calls Who Event) TrustError Ed25519Identity := do
  match ← (write_identity_file tmp_path seed).attempt with
  | .error e =>
    remove_tmp_file tmp_path
    .fail e
  | .ok () =>
    match ← call (.hard_link tmp_path path) with
    | .ok () =>
      remove_tmp_file tmp_path
      return .from_seed seed
    | .error .AlreadyExists =>
      remove_tmp_file tmp_path
      load_existing path
    | .error e =>
      remove_tmp_file tmp_path
      .fail (write_error e)

/-- Generates an identity from a fresh seed and publishes it. -/
def generate_and_persist (path : Path) (pid : UInt32) (unique : UInt64) (seed : U8Array 32) :
    Prog (Calls Who Event) TrustError Ed25519Identity :=
  match file_name path with
  | none => .fail (.KeyManagement s!"identity key path has no filename component: {RustFmt.display path}")
  | some name => do
    let parent := path.dropLast
    if parent ≠ [] then (fs.create_dir_all parent).map_error write_error
    persist path (parent ++ [tmp_name name pid unique]) seed

/-- Loads the identity from a key file, or generates it. -/
def Ed25519Identity.load_or_generate (path : Path) (pid : UInt32) (unique : UInt64) (seed : U8Array 32) :
    Prog (Calls Who Event) TrustError Ed25519Identity := do
  if ← call (.path_exists path) then load_existing path
  else generate_and_persist path pid unique seed

end lys
