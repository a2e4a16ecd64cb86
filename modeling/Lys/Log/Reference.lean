import Lys.Log.Leaves
import Lys.Reference

open rust effect posix

/-! Concrete texts and JSON files for evaluating the log directory on fixed inputs. -/

namespace reference

scoped instance : lys.BuildProfile := ⟨false⟩

scoped instance : lys.RustFmt where
  display path := String.ofList (path.flatMap fun name => '/' :: (from_utf8 name).getD ['\ufffd'])
  to_string_lossy name := (from_utf8 name).getD ['\ufffd']
  debug text := String.ofList (['\x22'] ++ text ++ ['\x22'])

/-- A character in a JSON string. -/
def escape_char (c : Char) : Str :=
  if c = '\x22' then ['\x5c', '\x22']
  else if c = '\x5c' then ['\x5c', '\x5c']
  else if c.toNat < 0x20 then ['\x5c', 'u', '0', '0', (c.toNat / 16).digitChar, (c.toNat % 16).digitChar]
  else [c]

def hex_value (c : Char) : Nat := if c.isDigit then c.toNat - 0x30 else c.toNat - 0x57

/-- A JSON string up to its closing quote, and what follows. -/
def read_string : Str → Option (Str × Str)
  | [] => none
  | '\x22' :: rest => some ([], rest)
  | '\x5c' :: 'u' :: '0' :: '0' :: high :: low :: rest =>
    (read_string rest).map fun read => (Char.ofNat (16 * hex_value high + hex_value low) :: read.1, read.2)
  | '\x5c' :: c :: rest => (read_string rest).map fun read => (c :: read.1, read.2)
  | c :: rest => (read_string rest).map fun read => (c :: read.1, read.2)

theorem read_string_escape_char (c : Char) (rest : Str) :
    read_string (escape_char c ++ rest) = (read_string rest).map fun read => (c :: read.1, read.2) := by
  by_cases hquote : c = '\x22'
  · subst hquote
    rfl
  by_cases hbackslash : c = '\x5c'
  · subst hbackslash
    rfl
  rw [escape_char, if_neg hquote, if_neg hbackslash]
  split
  next hcontrol =>
    have hchar : c = Char.ofNat c.toNat := (Char.ofNat_toNat c).symm
    generalize c.toNat = n at *
    subst hchar
    interval_cases n <;> rfl
  next =>
    rw [List.singleton_append, read_string.eq_def]
    split
    next heq => cases heq
    next heq => exact absurd (List.cons.inj heq).1 hquote
    next heq => exact absurd (List.cons.inj heq).1 hbackslash
    next heq => exact absurd (List.cons.inj heq).1 hbackslash
    next heq =>
      obtain ⟨rfl, rfl⟩ := List.cons.inj heq
      rfl

theorem read_string_escape (s rest : Str) :
    read_string (s.flatMap escape_char ++ '\x22' :: rest) = some (s, rest) := by
  induction s with
  | nil => rfl
  | cons c s ih => rw [List.flatMap_cons, List.append_assoc, read_string_escape_char, ih, Option.map_some]

/-- The fixed texts of the two files. -/
def format_key : Str := "\x7b\n  \x22format\x22: \x22".toList
def origin_key : Str := ",\n  \x22origin\x22: \x22".toList
def tree_size_key : Str := "\x7b\n  \x22tree_size\x22: ".toList
def root_hash_key : Str := ",\n  \x22root_hash\x22: \x22".toList
def close : Str := "\n\x7d".toList

def config_text (config : lys.LogConfig) : Str :=
  format_key ++ (config.format.flatMap escape_char ++ '\x22' ::
    (origin_key ++ (config.origin.flatMap escape_char ++ '\x22' :: close)))

def read_config (text : Str) : Option lys.LogConfig := do
  let text ← strip_prefix format_key text
  let (format, text) ← read_string text
  let text ← strip_prefix origin_key text
  let (origin, text) ← read_string text
  if text = close ++ ['\n'] then some { format, origin } else none

def state_text (state : lys.LogState) : Str :=
  tree_size_key ++ (u64_to_string state.tree_size ++
    (root_hash_key ++ (state.root_hash.flatMap escape_char ++ '\x22' :: close)))

def read_state (text : Str) : Option lys.LogState := do
  let text ← strip_prefix tree_size_key text
  let tree_size ← (parse_u64 (text.takeWhile Char.isDigit)).toOption
  let text ← strip_prefix root_hash_key (text.dropWhile Char.isDigit)
  let (root_hash, text) ← read_string text
  if text = close ++ ['\n'] then some { tree_size, root_hash } else none

theorem strip_prefix_append (front back : Str) : strip_prefix front (front ++ back) = some back :=
  strip_prefix_eq_some_iff.mpr rfl

theorem read_config_config_text (config : lys.LogConfig) : read_config (config_text config ++ ['\n']) = some config := by
  simp only [config_text, List.append_assoc, List.cons_append, read_config, strip_prefix_append, read_string_escape,
    Option.bind_eq_bind, Option.bind_some]
  exact if_pos trivial

/-- The digits of a number end before a text that starts with none. -/
theorem span_digits (n : UInt64) {rest : Str} (h : ∀ c, rest.head? = some c → c.isDigit = false) :
    (u64_to_string n ++ rest).takeWhile Char.isDigit = u64_to_string n ∧
      (u64_to_string n ++ rest).dropWhile Char.isDigit = rest := by
  have hdigits : ∀ c ∈ u64_to_string n, c.isDigit = true := fun c => isDigit_of_mem_u64_to_string
  rw [List.takeWhile_append_of_pos hdigits, List.dropWhile_append_of_pos hdigits]
  cases rest with
  | nil => simp
  | cons c rest => simp [h c rfl]

theorem read_state_state_text (state : lys.LogState) : read_state (state_text state ++ ['\n']) = some state := by
  have hspan := fun rest => @span_digits state.tree_size (root_hash_key ++ rest) fun c hc => by
    obtain rfl : c = ',' := (Option.some.inj hc).symm
    rfl
  simp only [state_text, List.append_assoc, List.cons_append, read_state, strip_prefix_append, read_string_escape,
    Option.bind_eq_bind, Option.bind_some, (hspan _).1, (hspan _).2, parse_u64_to_string, Except.toOption]
  exact if_pos trivial

scoped instance : lys.SerdeJson lys.LogConfig where
  to_string_pretty config := .ok (config_text config)
  from_slice bytes := ok_or ((from_utf8 bytes).bind read_config) "expected value"

scoped instance : lys.LawfulSerdeJson lys.LogConfig where
  from_slice_pretty config := by
    refine ⟨_, rfl, ?_⟩
    change ok_or ((from_utf8 (as_bytes _)).bind read_config) _ = _
    rw [from_utf8_as_bytes, Option.bind_some, read_config_config_text]
    rfl

scoped instance : lys.SerdeJson lys.LogState where
  to_string_pretty state := .ok (state_text state)
  from_slice bytes := ok_or ((from_utf8 bytes).bind read_state) "expected value"

scoped instance : lys.LawfulSerdeJson lys.LogState where
  from_slice_pretty state := by
    refine ⟨_, rfl, ?_⟩
    change ok_or ((from_utf8 (as_bytes _)).bind read_state) _ = _
    rw [from_utf8_as_bytes, Option.bind_some, read_state_state_text]
    rfl

/-- A file system with nothing but its root. -/
def empty_fs : Fs where
  entries := ∅
  contents := []
  closed path name h := absurd h (AList.notMem_empty _)
  inode_lt path inode h := by simp at h

theorem view_empty_fs {path : Path} (h : path ≠ []) : empty_fs.view path = none := by
  rw [Fs.view_eq_none_iff, Fs.find_of_ne h]
  rfl

def empty_world : World Unit Empty := ⟨empty_fs, []⟩

def log_dir : Path := [lys.component "log"]

/-- `LogStore::init` of the origin "log" in an empty file system. -/
def initialized : World Unit Empty :=
  (run () (lys.LogStore.init log_dir "log".toList)
    [.proceed, .proceed, .proceed, .proceed, .proceed, .stores 52, .proceed, .stores 84, .proceed] empty_world).state

/-- The same log after the leaf "x" was appended. -/
def one_leaf : World Unit Empty :=
  (run () (lys.LogStore.openLog log_dir >>= fun store => store.append [0x78])
    [.proceed, .proceed, .proceed, .lists [], .proceed, .stores 1, .proceed, .stores 84, .proceed] initialized).state

/-- The same log with a file for a further leaf "y" put beside it. -/
def extra_leaf : World Unit Empty :=
  (@run (Calls Unit Empty) _ _ () (fs.write (lys.leaf_path log_dir 1) [0x79]) [.proceed, .stores 1] one_leaf).state

/-- The leaves of an opened log. -/
def leaves_of {ε : Type} : Option (Outcome ε lys.LogStore) → Option (List Bytes)
  | some (.done store) => some store.leaves
  | _ => none

theorem exists_of_leaves_of {ε : Type} {out : Option (Outcome ε lys.LogStore)} {leaves : List Bytes}
    (h : leaves_of out = some leaves) : ∃ store, out = some (.done store) ∧ store.leaves = leaves := by
  unfold leaves_of at h
  split at h
  next store => exact ⟨store, rfl, Option.some.inj h⟩
  next => cases h

/-- Whether a run ended with an error. -/
def fails {ε α : Type} : Option (Outcome ε α) → Bool
  | some (.failed _) => true
  | _ => false

end reference
