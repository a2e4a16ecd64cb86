import Lys.Checkpoint.VerifierKey
import Lys.Merkle.Tree

open rust

namespace lys

/-- C2SP tlog-checkpoint body. The origin doubles as the signing key name, so it obeys
the note key-name rules. -/
@[ext]
structure CheckpointBody where
  origin : Str
  tree_size : UInt64
  root_hash : U8Array 32
  origin_valid : validate_note_name origin = .ok ()

/-- Parses a strict ASCII-decimal tree size: no sign, no leading zeros. -/
def parse_tree_size (line : Str) : TrustResult UInt64 := do
  reject_if (line = [] ∨ ¬ line.all Char.isDigit)
    (.CheckpointParsing "tree size must be ASCII decimal digits only")
  reject_if ((as_bytes line).length > 1 ∧ line.head? = some '0')
    (.CheckpointParsing "tree size must not have leading zeros")
  (parse_u64 line).mapError fun e => .CheckpointParsing s!"tree size does not fit in u64: {e}"

/-- Parses the root-hash line: 44 base64 characters of 32 bytes. -/
def parse_root_line [Base64] (line : Str) : TrustResult (U8Array 32) := do
  reject_if ((as_bytes line).length ≠ 44)
    (.CheckpointParsing
      s!"root hash line must be exactly 44 base64 characters, got {(as_bytes line).length}")
  let decoded ← (Base64.decode line).mapError fun e =>
    .CheckpointParsing s!"root hash line is not canonical standard base64: {e}"
  ok_or (U8Array.try_from 32 decoded)
    (.CheckpointParsing s!"root hash must decode to 32 bytes, got {decoded.length}")

namespace CheckpointBody

/-- Builds a checkpoint body over a valid origin. -/
def new (origin : Str) (tree_size : UInt64) (root_hash : U8Array 32) : TrustResult CheckpointBody :=
  match h : validate_note_name origin with
  | .ok () => .ok ⟨origin, tree_size, root_hash, h⟩
  | .error e => .error (.CheckpointEncoding s!"invalid checkpoint origin: {e.to_string}")

def from_root (origin : Str) (root : RootHash) : TrustResult CheckpointBody :=
  let (root_hash, tree_size) := root.to_parts
  new origin tree_size root_hash

def to_root (body : CheckpointBody) : RootHash := RootHash.from_parts body.root_hash body.tree_size

theorem new_eq_ok (body : CheckpointBody) : new body.origin body.tree_size body.root_hash = .ok body := by
  unfold new
  split
  next => rfl
  next e h => rw [body.origin_valid] at h; cases h

theorem from_root_eq_ok {origin : Str} (hname : validate_note_name origin = .ok ()) (root : RootHash) :
    from_root origin root = .ok ⟨origin, root.num_leaves, root.root_hash, hname⟩ :=
  new_eq_ok ⟨origin, root.num_leaves, root.root_hash, hname⟩

theorem of_from_root_eq_ok {origin : Str} {root : RootHash} {body : CheckpointBody}
    (h : from_root origin root = .ok body) : body.origin = origin ∧ body.to_root = root := by
  simp only [from_root, new] at h
  split at h
  next => exact Except.ok.inj h ▸ ⟨rfl, rfl⟩
  next => cases h

variable [Base64]

/-- Three newline-terminated lines: origin, decimal tree size, base64 root hash. -/
def encode (body : CheckpointBody) : Str :=
  body.origin ++ ['\n'] ++ u64_to_string body.tree_size ++ ['\n'] ++
    Base64.encode body.root_hash.as_slice ++ ['\n']

/-- The origin, size and root lines; lines beyond them are discarded. -/
def parse_lines (lines : List Str) : TrustResult CheckpointBody := do
  reject_if (lines.length < 3)
    (.CheckpointParsing s!"checkpoint body must have at least 3 lines, got {lines.length}")
  reject_if ([] ∈ lines) (.CheckpointParsing "checkpoint body must not contain empty lines")
  let origin := lines.getD 0 []
  match h : validate_note_name origin with
  | .error e => .error (.CheckpointParsing s!"invalid checkpoint origin: {e.to_string}")
  | .ok () =>
    let tree_size ← parse_tree_size (lines.getD 1 [])
    let root_hash ← parse_root_line (lines.getD 2 [])
    return ⟨origin, tree_size, root_hash, h⟩

/-- Strict parse of a body. -/
def parse (text : Str) : TrustResult CheckpointBody := do
  reject_if (text.getLast? ≠ some '\n') (.CheckpointParsing "checkpoint body must end with a newline")
  parse_lines (split_lines '\n' text)

theorem encode_eq_join_lines (body : CheckpointBody) :
    body.encode = join_lines '\n' [body.origin, u64_to_string body.tree_size,
      Base64.encode body.root_hash.as_slice] := by
  simp [encode]

end CheckpointBody

theorem parse_tree_size_to_string (n : UInt64) : parse_tree_size (u64_to_string n) = .ok n := by
  have hzero : ¬ ((as_bytes (u64_to_string n)).length > 1 ∧ (u64_to_string n).head? = some '0') := by
    rintro ⟨hlong, hhead⟩
    have hascii : ∀ c ∈ u64_to_string n, c.toNat < 128 := fun c hc =>
      (toNat_lt_of_isDigit (isDigit_of_mem_u64_to_string hc)).2.trans (by decide)
    rw [length_as_bytes_ascii hascii, length_u64_to_string_of_head? hhead] at hlong
    exact absurd hlong (by decide)
  rw [parse_tree_size, reject_if_of_not (by simp [u64_to_string_ne_nil, all_isDigit_u64_to_string]),
    ok_bind, reject_if_of_not hzero, ok_bind, parse_u64_to_string]
  rfl

section Base64

variable [Base64] [StandardBase64]

theorem length_as_bytes_encode (bytes : Bytes) :
    (as_bytes (Base64.encode bytes)).length = 4 * ((bytes.length + 2) / 3) := by
  rw [StandardBase64.encode_eq, length_as_bytes_ascii, rfc4648.length_encode]
  intro c hc
  have := (rfc4648.isBase64Char_of_mem_encode hc).printable
  omega

theorem encode_ne_nil {bytes : Bytes} (h : 0 < bytes.length) : Base64.encode bytes ≠ [] := by
  intro hnil
  have hlength := length_as_bytes_encode bytes
  rw [hnil, as_bytes_nil, List.length_nil] at hlength
  omega

theorem newline_not_mem_encode {bytes : Bytes} : '\n' ∉ Base64.encode bytes := by
  rw [StandardBase64.encode_eq]
  intro h
  have := (rfc4648.isBase64Char_of_mem_encode h).printable.1
  revert this
  decide

theorem parse_root_line_encode (root_hash : U8Array 32) :
    parse_root_line (Base64.encode root_hash.as_slice) = .ok root_hash := by
  have hdecode : Base64.decode (Base64.encode root_hash.as_slice) = .ok root_hash.as_slice := by
    rw [StandardBase64.decode_eq_ok_iff, StandardBase64.encode_eq]
  rw [parse_root_line, reject_if_of_not (by simp [length_as_bytes_encode]), ok_bind, hdecode]
  simp [Except.mapError]

namespace CheckpointBody

/-- The lines of an encoding are neither empty nor cut by a newline. -/
theorem encode_lines (body : CheckpointBody) :
    ∀ line ∈ [body.origin, u64_to_string body.tree_size, Base64.encode body.root_hash.as_slice],
      line ≠ [] ∧ '\n' ∉ line := by
  have hroot : Base64.encode body.root_hash.as_slice ≠ [] := encode_ne_nil (by simp)
  simp only [List.mem_cons, List.not_mem_nil, or_false, forall_eq_or_imp, forall_eq]
  exact ⟨⟨note_name_ne_nil body.origin_valid, newline_not_mem_note_name body.origin_valid⟩,
    ⟨u64_to_string_ne_nil _, newline_not_mem_u64_to_string⟩, hroot, newline_not_mem_encode⟩

theorem parse_lines_encode (body : CheckpointBody) :
    parse_lines [body.origin, u64_to_string body.tree_size, Base64.encode body.root_hash.as_slice] =
      .ok body := by
  have hempty : ¬ [] ∈ [body.origin, u64_to_string body.tree_size, Base64.encode body.root_hash.as_slice] :=
    fun h => (body.encode_lines _ h).1 rfl
  rw [parse_lines, reject_if_of_not (by simp), ok_bind, reject_if_of_not hempty, ok_bind]
  simp only [List.getD_cons_zero, List.getD_cons_succ]
  split
  next e h => simp [body.origin_valid] at h
  next => simp [parse_tree_size_to_string, parse_root_line_encode]

/-- Every body is parsed from its own encoding. -/
theorem parse_encode (body : CheckpointBody) : parse body.encode = .ok body := by
  have hend : ¬ body.encode.getLast? ≠ some '\n' := by
    rw [encode, List.getLast?_concat]
    simp
  have hlines : split_lines '\n' body.encode = [body.origin, u64_to_string body.tree_size,
      Base64.encode body.root_hash.as_slice] := by
    rw [encode_eq_join_lines]
    exact split_lines_join_lines (by simp) fun line hline => (body.encode_lines line hline).2
  rw [parse, reject_if_of_not hend, ok_bind, hlines, parse_lines_encode]

end CheckpointBody

end Base64

end lys
