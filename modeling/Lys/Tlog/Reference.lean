import Lys.Log.Reference
import Lys.Tlog.Verify

open rust

/-! Concrete JSON artifacts for evaluating the proof commands on fixed inputs. -/

namespace reference

/-- A character in a JSON string of several lines. -/
def escape_line (c : Char) : Str := if c = '\n' then ['\x5c', 'n'] else escape_char c

/-- A JSON string of several lines up to its closing quote, and what follows. -/
def read_lines : Str → Option (Str × Str)
  | [] => none
  | '\x22' :: rest => some ([], rest)
  | '\x5c' :: 'n' :: rest => (read_lines rest).map fun read => ('\n' :: read.1, read.2)
  | '\x5c' :: 'u' :: '0' :: '0' :: high :: low :: rest =>
    (read_lines rest).map fun read => (Char.ofNat (16 * hex_value high + hex_value low) :: read.1, read.2)
  | '\x5c' :: c :: rest => (read_lines rest).map fun read => (c :: read.1, read.2)
  | c :: rest => (read_lines rest).map fun read => (c :: read.1, read.2)

/-- A string with its quotes. -/
def string_text (s : Str) : Str := '\x22' :: (s.flatMap escape_line ++ ['\x22'])

def read_text (text : Str) : Option (Str × Str) := ( strip_prefix ['\x22'] text).bind read_lines

/-- The strings behind the first one of an array. -/
def more_text (strings : List Str) : Str := strings.flatMap fun s => ",\n    ".toList ++ string_text s

def strings_text : List Str → Str
  | [] => "[]".toList
  | s :: strings => "[\n    ".toList ++ (string_text s ++ (more_text strings ++ "\n  ]".toList))

def read_more : Nat → Str → Option (List Str × Str)
  | 0, _ => none
  | fuel + 1, text =>
    match strip_prefix "\n  ]".toList text with
    | some text => some ([], text)
    | none => do
      let text ← strip_prefix ",\n    ".toList text
      let (s, text) ← read_text text
      let (strings, text) ← read_more fuel text
      return (s :: strings, text)

def read_strings (text : Str) : Option (List Str × Str) :=
  match strip_prefix "[]".toList text with
  | some text => some ([], text)
  | none => do
    let text ← strip_prefix "[\n    ".toList text
    let (s, text) ← read_text text
    let (strings, text) ← read_more (text.length + 1) text
    return (s :: strings, text)

/-- A number in front of a text. -/
def read_number (text : Str) : Option (UInt64 × Str) :=
  (parse_u64 (text.takeWhile Char.isDigit)).toOption.map fun n => (n, text.dropWhile Char.isDigit)

/-- The names of the fields, as they stand between the values. -/
def artifact_format_key : Str := "\x7b\n  \x22format\x22: ".toList
def artifact_size_key : Str := ",\n  \x22tree_size\x22: ".toList
def leaf_index_key : Str := ",\n  \x22leaf_index\x22: ".toList
def hashes_key : Str := ",\n  \x22hashes\x22: ".toList
def checkpoint_key : Str := ",\n  \x22checkpoint\x22: ".toList
def size_1_key : Str := ",\n  \x22tree_size_1\x22: ".toList
def size_2_key : Str := ",\n  \x22tree_size_2\x22: ".toList
def checkpoint_1_key : Str := ",\n  \x22checkpoint_1\x22: ".toList
def checkpoint_2_key : Str := ",\n  \x22checkpoint_2\x22: ".toList

def inclusion_text (artifact : lys.InclusionProofArtifact) : Str :=
  artifact_format_key ++ (string_text artifact.format ++ (artifact_size_key ++ (u64_to_string artifact.tree_size ++
    (leaf_index_key ++ (u64_to_string artifact.leaf_index ++ (hashes_key ++ (strings_text artifact.hashes ++
      (checkpoint_key ++ (string_text artifact.checkpoint ++ close)))))))))

def read_inclusion (text : Str) : Option lys.InclusionProofArtifact := do
  let text ← strip_prefix artifact_format_key text
  let (format, text) ← read_text text
  let text ← strip_prefix artifact_size_key text
  let (tree_size, text) ← read_number text
  let text ← strip_prefix leaf_index_key text
  let (leaf_index, text) ← read_number text
  let text ← strip_prefix hashes_key text
  let (hashes, text) ← read_strings text
  let text ← strip_prefix checkpoint_key text
  let (checkpoint, text) ← read_text text
  if text = close ++ ['\n'] then some { format, tree_size, leaf_index, hashes, checkpoint } else none

def consistency_text (artifact : lys.ConsistencyProofArtifact) : Str :=
  artifact_format_key ++ (string_text artifact.format ++ (size_1_key ++ (u64_to_string artifact.tree_size_1 ++
    (size_2_key ++ (u64_to_string artifact.tree_size_2 ++ (hashes_key ++ (strings_text artifact.hashes ++
      (checkpoint_1_key ++ (string_text artifact.checkpoint_1 ++
        (checkpoint_2_key ++ (string_text artifact.checkpoint_2 ++ close)))))))))))

def read_consistency (text : Str) : Option lys.ConsistencyProofArtifact := do
  let text ← strip_prefix artifact_format_key text
  let (format, text) ← read_text text
  let text ← strip_prefix size_1_key text
  let (tree_size_1, text) ← read_number text
  let text ← strip_prefix size_2_key text
  let (tree_size_2, text) ← read_number text
  let text ← strip_prefix hashes_key text
  let (hashes, text) ← read_strings text
  let text ← strip_prefix checkpoint_1_key text
  let (checkpoint_1, text) ← read_text text
  let text ← strip_prefix checkpoint_2_key text
  let (checkpoint_2, text) ← read_text text
  if text = close ++ ['\n'] then some { format, tree_size_1, tree_size_2, hashes, checkpoint_1, checkpoint_2 } else none

scoped instance : lys.SerdeJson lys.InclusionProofArtifact where
  to_string_pretty artifact := .ok (inclusion_text artifact)
  from_slice bytes := ok_or ((from_utf8 bytes).bind read_inclusion) "expected value"

scoped instance : lys.SerdeJson lys.ConsistencyProofArtifact where
  to_string_pretty artifact := .ok (consistency_text artifact)
  from_slice bytes := ok_or ((from_utf8 bytes).bind read_consistency) "expected value"

end reference
