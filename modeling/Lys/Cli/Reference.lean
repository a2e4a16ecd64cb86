import Lys.Cli.Seal
import Lys.Log.Reference

open rust effect posix

/-! Concrete JSON envelopes and files for evaluating the sealing commands on fixed inputs. -/

namespace reference

scoped instance : lys.IoErrorText where
  to_string
    | .NotFound => "No such file or directory (os error 2)"
    | .AlreadyExists => "File exists (os error 17)"
    | .NotADirectory => "Not a directory (os error 20)"
    | .IsADirectory => "Is a directory (os error 21)"
    | .WriteZero => "failed to write whole buffer"
    | .Other => "Input/output error (os error 5)"

def byte_text (byte : UInt8) : Str := u64_to_string byte.toUInt64

/-- A byte in front of a text. -/
def read_byte (text : Str) : Option (UInt8 × Str) :=
  (parse_u64 (text.takeWhile Char.isDigit)).toOption.map fun n => (n.toUInt8, text.dropWhile Char.isDigit)

theorem read_byte_byte_text (byte : UInt8) {rest : Str} (h : ∀ c, rest.head? = some c → c.isDigit = false) :
    read_byte (byte_text byte ++ rest) = some (byte, rest) := by
  obtain ⟨htake, hdrop⟩ := span_digits byte.toUInt64 h
  rw [read_byte, byte_text, htake, hdrop, parse_u64_to_string]
  simp [Except.toOption]

/-- The bytes behind the first one of an array. -/
def rest_text (bytes : Bytes) : Str := bytes.flatMap fun byte => ",\n    ".toList ++ byte_text byte

def array_text : Bytes → Str
  | [] => "[]".toList
  | byte :: bytes => "[\n    ".toList ++ (byte_text byte ++ (rest_text bytes ++ "\n  ]".toList))

def read_rest : Nat → Str → Option (Bytes × Str)
  | 0, _ => none
  | fuel + 1, text =>
    match strip_prefix "\n  ]".toList text with
    | some text => some ([], text)
    | none => do
      let text ← strip_prefix ",\n    ".toList text
      let (byte, text) ← read_byte text
      let (bytes, text) ← read_rest fuel text
      return (byte :: bytes, text)

def read_array (text : Str) : Option (Bytes × Str) :=
  match strip_prefix "[]".toList text with
  | some text => some ([], text)
  | none => do
    let text ← strip_prefix "[\n    ".toList text
    let (byte, text) ← read_byte text
    let (bytes, text) ← read_rest (text.length + 1) text
    return (byte :: bytes, text)

theorem strip_prefix_of_ne_head {c d : Char} {front text : Str} (h : c ≠ d) : strip_prefix (c :: front) (d :: text) = none := by
  rw [Option.eq_none_iff_forall_not_mem]
  intro back hback
  exact h (List.cons.inj (strip_prefix_eq_some_iff.mp hback)).1.symm

/-- What stands behind a byte of an array starts with no digit. -/
theorem head?_rest_text (bytes : Bytes) (rest : Str) :
    ∀ c, (rest_text bytes ++ ("\n  ]".toList ++ rest)).head? = some c → c.isDigit = false := by
  intro c hc
  cases bytes with
  | nil =>
    obtain rfl : '\n' = c := Option.some.inj hc
    decide
  | cons byte bytes =>
    obtain rfl : ',' = c := Option.some.inj hc
    decide

theorem read_rest_rest_text {fuel : Nat} {bytes : Bytes} (hfuel : bytes.length < fuel) (rest : Str) :
    read_rest fuel (rest_text bytes ++ ("\n  ]".toList ++ rest)) = some (bytes, rest) := by
  induction bytes generalizing fuel with
  | nil =>
    cases fuel with
    | zero => cases hfuel
    | succ fuel => simp only [rest_text, List.flatMap_nil, List.nil_append, read_rest, strip_prefix_append]
  | cons byte bytes ih =>
    cases fuel with
    | zero => cases hfuel
    | succ fuel =>
      have hcons : rest_text (byte :: bytes) ++ ("\n  ]".toList ++ rest) =
          ",\n    ".toList ++ (byte_text byte ++ (rest_text bytes ++ ("\n  ]".toList ++ rest))) := by
        simp [rest_text]
      have hother : strip_prefix "\n  ]".toList
          (",\n    ".toList ++ (byte_text byte ++ (rest_text bytes ++ ("\n  ]".toList ++ rest)))) = none :=
        strip_prefix_of_ne_head (by decide)
      rw [hcons, read_rest, hother]
      simp only [strip_prefix_append, Option.bind_eq_bind, Option.bind_some,
        read_byte_byte_text byte (head?_rest_text bytes rest), ih (Nat.lt_of_succ_lt_succ hfuel)]
      rfl

theorem length_le_rest_text (bytes : Bytes) : bytes.length ≤ (rest_text bytes).length := by
  induction bytes with
  | nil => exact Nat.zero_le _
  | cons byte bytes ih =>
    rw [rest_text, List.flatMap_cons, List.length_append]
    rw [rest_text] at ih
    have hseparator : (",\n    ".toList).length = 6 := rfl
    rw [List.length_append, hseparator, List.length_cons]
    omega

theorem read_array_array_text (bytes : Bytes) (rest : Str) : read_array (array_text bytes ++ rest) = some (bytes, rest) := by
  cases bytes with
  | nil => rw [array_text, read_array, strip_prefix_append]
  | cons byte bytes =>
    have hother : strip_prefix "[]".toList ("[\n    ".toList ++ (byte_text byte ++ (rest_text bytes ++ ("\n  ]".toList ++ rest)))) =
        none := by
      rw [Option.eq_none_iff_forall_not_mem]
      intro back hback
      have htail := (List.cons.inj (strip_prefix_eq_some_iff.mp hback)).2
      exact absurd (List.cons.inj htail).1 (by decide)
    have hfuel : bytes.length < (rest_text bytes ++ ("\n  ]".toList ++ rest)).length + 1 := by
      have hlength := length_le_rest_text bytes
      rw [List.length_append]
      omega
    simp only [array_text, List.append_assoc, read_array, hother, strip_prefix_append, Option.bind_eq_bind, Option.bind_some,
      read_byte_byte_text byte (head?_rest_text bytes rest), read_rest_rest_text hfuel]
    rfl

/-- The fixed texts of an envelope file. -/
def ephemeral_key_key : Str := "\x7b\n  \x22ephemeral_public_key\x22: ".toList
def ciphertext_key : Str := ",\n  \x22ciphertext\x22: ".toList
def nonce_key : Str := ",\n  \x22nonce\x22: ".toList

def envelope_text (envelope : lys.SealedEnvelope) : Str :=
  ephemeral_key_key ++ (array_text envelope.ephemeral_public_key.as_slice ++ (ciphertext_key ++
    (array_text envelope.ciphertext ++ (nonce_key ++ (array_text envelope.nonce.as_slice ++ close)))))

def read_envelope (text : Str) : Option lys.SealedEnvelope := do
  let text ← strip_prefix ephemeral_key_key text
  let (ephemeral_public_key, text) ← read_array text
  let text ← strip_prefix ciphertext_key text
  let (ciphertext, text) ← read_array text
  let text ← strip_prefix nonce_key text
  let (nonce, text) ← read_array text
  let ephemeral_public_key ← U8Array.try_from 32 ephemeral_public_key
  let nonce ← U8Array.try_from lys.NONCE_LEN nonce
  if text = close ++ ['\n'] then some { ephemeral_public_key, ciphertext, nonce } else none

theorem read_envelope_envelope_text (envelope : lys.SealedEnvelope) :
    read_envelope (envelope_text envelope ++ ['\n']) = some envelope := by
  simp only [envelope_text, List.append_assoc, read_envelope, strip_prefix_append, read_array_array_text,
    Option.bind_eq_bind, Option.bind_some, U8Array.try_from_as_slice]
  exact if_pos trivial

scoped instance : lys.SerdeJson lys.SealedEnvelope where
  to_string_pretty envelope := .ok (envelope_text envelope)
  from_slice bytes := ok_or ((from_utf8 bytes).bind read_envelope) "expected value"

scoped instance : lys.LawfulSerdeJson lys.SealedEnvelope where
  from_slice_pretty envelope := by
    refine ⟨_, rfl, ?_⟩
    change ok_or ((from_utf8 (as_bytes _)).bind read_envelope) _ = _
    rw [from_utf8_as_bytes, Option.bind_some, read_envelope_envelope_text]
    rfl

scoped instance : lys.AsciiSerdeJson lys.SealedEnvelope where
  exists_from_slice_eq_error byte bytes hbyte := by
    refine ⟨"expected value", ?_⟩
    have hnone : (from_utf8 (byte :: bytes)).bind read_envelope = none := by
      rw [Option.bind_eq_none_iff]
      intro text htext
      have hother : strip_prefix ephemeral_key_key text = none := by
        rw [Option.eq_none_iff_forall_not_mem]
        intro back hback
        rw [strip_prefix_eq_some_iff.mp hback] at htext
        have hfront := (List.cons.inj (from_utf8_eq_some_iff.mp htext)).1
        rw [hfront] at hbyte
        exact absurd hbyte (by decide)
      rw [read_envelope, hother]
      rfl
    change ok_or ((from_utf8 (byte :: bytes)).bind read_envelope) _ = _
    rw [hnone]
    rfl

/-- A world with a sender's key and a payload. -/
def key_path : Path := [lys.component "sender.key"]
def payload_path : Path := [lys.component "payload"]
def envelope_path : Path := [lys.component "envelope.json"]
def attestation_path : Path := [lys.component "attestation.cose"]

/-- A file system with the key file of the zero seed and a payload of one byte. -/
def sealing_world : World Unit lys.Console :=
  (@run (Calls Unit lys.Console) _ _ () (do
      fs.write key_path (of_hex 32 0).as_slice
      fs.write payload_path [0x78])
    [.proceed, .stores 32, .proceed, .stores 1] ⟨empty_fs, []⟩).state

/-- `lys seal` of the payload for the sender itself. -/
def seal_payload (out attestation_out : Path) : lys.Process Unit lys.Console Unit :=
  lys.seal_command key_path (hex_lower zero_x25519_public_key.as_slice) payload_path out attestation_out two_secret
    1700000000000

end reference
