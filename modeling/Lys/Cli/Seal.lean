import Lys.Attestation.Artifact
import Lys.Keys.KeyAgreement
import Lys.Keys.Load
import Lys.RustStd.Hex
import Lys.Seal.Authenticated

open rust effect posix

namespace lys

section Hex

/-- The bytes that pairs of hexadecimal digits write. -/
def parse_hex_pairs : Bytes → Option Bytes
  | high :: low :: rest => do
    let high ← to_digit_16 (Char.ofUInt8 high)
    let low ← to_digit_16 (Char.ofUInt8 low)
    let bytes ← parse_hex_pairs rest
    return UInt8.ofNat (16 * high + low) :: bytes
  | _ => some []

/-- Decodes exactly 64 hexadecimal characters into 32 bytes. -/
def parse_hex_32 (text : Str) : Option (U8Array 32) :=
  let bytes := as_bytes text
  if bytes.length ≠ 64 then none else (parse_hex_pairs bytes).bind (U8Array.try_from 32)

/-- The digit of a number is read back from its byte. -/
theorem to_digit_16_digitChar {n : Nat} (h : n < 16) :
    ∃ byte, String.utf8EncodeChar (Nat.digitChar n) = [byte] ∧ to_digit_16 (Char.ofUInt8 byte) = some n := by
  have hall : ∀ n : Fin 16, ∃ byte, String.utf8EncodeChar (Nat.digitChar n) = [byte] ∧ to_digit_16 (Char.ofUInt8 byte) = some ↑n := by
    intro n
    refine ⟨UInt8.ofNat (Nat.digitChar n).toNat, ?_⟩
    revert n
    decide
  exact hall ⟨n, h⟩

theorem parse_hex_pairs_hex_lower (bytes : Bytes) : parse_hex_pairs (as_bytes (hex_lower bytes)) = some bytes := by
  induction bytes with
  | nil => rfl
  | cons byte bytes ih =>
    have hlt := byte.toNat_lt
    obtain ⟨high, hhigh, hhighDigit⟩ := to_digit_16_digitChar (n := byte.toNat / 16) (by omega)
    obtain ⟨low, hlow, hlowDigit⟩ := to_digit_16_digitChar (n := byte.toNat % 16) (by omega)
    rw [hex_lower_cons, as_bytes_cons, as_bytes_cons, hhigh, hlow, List.singleton_append, List.singleton_append,
      parse_hex_pairs, hhighDigit, hlowDigit, ih]
    change some (UInt8.ofNat (16 * (byte.toNat / 16) + byte.toNat % 16) :: bytes) = _
    rw [Nat.div_add_mod, UInt8.ofNat_toNat]

/-- What is printed for a key is read back. -/
theorem parse_hex_32_hex_lower (key : U8Array 32) : parse_hex_32 (hex_lower key.as_slice) = some key := by
  have hlength : (as_bytes (hex_lower key.as_slice)).length = 64 := by
    rw [length_as_bytes_ascii fun c hc => (toNat_of_is_ascii_hexdigit (is_ascii_hexdigit_of_mem_hex_lower hc)).2,
      length_hex_lower, key.length_eq]
  rw [parse_hex_32, hlength, parse_hex_pairs_hex_lower]
  simp

end Hex

section Commands

variable [RustFmt] [IoErrorText] [Sha2] [Ed25519Dalek] [Ed25519Scalar] [X25519Dalek] [HkdfSha256] [Aes256Gcm]
  [SerdeJson SealedEnvelope] {Who : Type}

/-- The outputs of `lys seal`: the envelope is written, then its attestation. -/
def seal_outputs (payload out attestation_out : Path) (recipient : U8Array 32) (attestation : Attestation)
    (envelope_json : Bytes) : Process Who Console Unit := do
  write_file out envelope_json "sealed envelope file"
  match ← (write_file attestation_out attestation.to_cose_bytes "seal attestation file").attempt with
  | .error error =>
    -- an envelope without its attestation is unopenable
    match ← (fs.remove_file out).attempt with
    | .error cleanup =>
      eprintln (s!"warning: failed to remove partial sealed envelope {RustFmt.display out}: " ++
        IoErrorText.to_string cleanup)
    | .ok () => pure ()
    .fail error
  | .ok () =>
    println s!"sealed payload: {RustFmt.display payload}"
    println ("recipient public key (x25519): " ++ String.ofList (hex_lower recipient.as_slice))
    println ("sender public key (ed25519): " ++ String.ofList (hex_lower attestation.signer_public_key.as_slice))
    println s!"sealed envelope written: {RustFmt.display out}"
    println s!"seal attestation written: {RustFmt.display attestation_out} (COSE_Sign1, application/cose)"

/-- `lys seal`. -/
def seal_command (key : Path) (recipient_public_key : Str) (payload out attestation_out : Path)
    (ephemeral_seed : U8Array 32) (now : Int64) : Process Who Console Unit := do
  let identity ← load_identity key
  let recipient ← Prog.of_except (ok_or (parse_hex_32 recipient_public_key) .InvalidRecipientPublicKey)
  let payload_bytes ← read_file payload "payload file"
  let (envelope, attestation) ← Prog.of_except
    ((sign_and_seal payload_bytes identity recipient ephemeral_seed now).mapError CliError.Trust)
  let envelope_json ← Prog.of_except
    ((SerdeJson.to_string_pretty envelope).mapError (CliError.JsonSerialize "sealed envelope"))
  seal_outputs payload out attestation_out recipient attestation (as_bytes (envelope_json ++ ['\n']))

variable [Ciborium]

/-- `lys open`. -/
def open_command (key : Path) (sender_public_key : Str) (envelope attestation out : Path) :
    Process Who Console Unit := do
  let identity ← load_identity key
  let sender ← Prog.of_except (ok_or (parse_hex_32 sender_public_key) .InvalidSenderPublicKey)
  let envelope_bytes ← read_file envelope "sealed envelope file"
  let sealed : SealedEnvelope ← Prog.of_except
    ((SerdeJson.from_slice envelope_bytes).mapError (CliError.JsonParse "sealed envelope" envelope))
  let attestation_bytes ← read_file attestation "seal attestation file"
  let seal_attestation ← Prog.of_except
    ((Attestation.from_cose_bytes attestation_bytes).mapError fun _ => CliError.OpenFailed)
  let plaintext ← Prog.of_except
    ((open_and_verify sealed seal_attestation sender identity.x25519_static_secret).mapError fun _ =>
      CliError.OpenFailed)
  write_file_private out plaintext "opened payload file"
  println "sealed envelope opened"
  println ("sender public key (ed25519): " ++ String.ofList (hex_lower sender.as_slice))
  println s!"payload bytes: {plaintext.length}"
  println s!"payload written: {RustFmt.display out}"

end Commands

end lys
