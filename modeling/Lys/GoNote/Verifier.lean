import Lys.Checkpoint.Spec
import Lys.GoNote.Agreement

open rust

namespace go.note

inductive VerifierError where
  | errVerifierID
  | errVerifierAlg
  | errVerifierHash
deriving DecidableEq

/-- Builds a verifier from an encoded verifier key. `ed25519_Verify` is `ed25519.Verify`. -/
def NewVerifier [lys.Sha2] (ed25519_Verify : Bytes → Bytes → Bytes → Bool) (vkey : Bytes) :
    Except VerifierError Verifier := do
  let (name, vkey) := chop vkey 0x2b
  let (hash16, key64) := chop vkey 0x2b
  let hash ← ok_or (ParseUint hash16) .errVerifierID
  let key ← ok_or (DecodeString key64) .errVerifierID
  reject_if (hash16.length ≠ 8 ∨ isValidName name = false ∨ key = []) .errVerifierID
  reject_if (hash ≠ keyHash name key) .errVerifierHash
  reject_if (key.head? ≠ some 1) .errVerifierAlg
  reject_if (key.tail.length ≠ 32) .errVerifierID
  return ⟨name, hash, ed25519_Verify key.tail⟩

end go.note

namespace lys

section Text

variable [Sha2] [Base64] [StandardBase64]

/-- Go reads an accepted spec as the same name, key hash and key. -/
theorem newVerifier_of_from_spec {spec : Str} {key : NoteVerifierKey} (h : NoteVerifierKey.from_spec spec = .ok key)
    (ed25519_Verify : Bytes → Bytes → Bytes → Bool) : go.note.NewVerifier ed25519_Verify (as_bytes spec) =
      .ok ⟨as_bytes key.name, go.BigEndianUint32 key.key_id.as_slice, ed25519_Verify key.public_key.as_slice⟩ := by
  obtain ⟨hex_id, hlength, hdigits, hid, rfl⟩ := NoteVerifierKey.from_spec_eq_ok_iff.mp h
  have hname : '+' ∉ key.name := (validate_note_name_eq_ok_iff.mp key.name_valid).2.2
  have hhex : '+' ∉ hex_id := by
    intro hmem
    have hdigit := List.all_eq_true.mp hdigits '+' hmem
    revert hdigit
    decide
  have hcutName := @chop_as_bytes '+' (by decide) _ (hex_id ++ '+' :: Base64.encode (0x01 :: key.public_key.as_slice)) hname
  have hcutHex := @chop_as_bytes '+' (by decide) _ (Base64.encode (0x01 :: key.public_key.as_slice)) hhex
  have hdecode : go.DecodeString (as_bytes (Base64.encode (0x01 :: key.public_key.as_slice))) =
      some (0x01 :: key.public_key.as_slice) := by
    rw [StandardBase64.encode_eq, go.decodeString_encode]
  have hbytes : (as_bytes hex_id).length = 8 := by
    rw [length_as_bytes_ascii fun c hc => (toNat_of_is_ascii_hexdigit (List.all_eq_true.mp hdigits c hc)).2, hlength]
  change go.note.chop _ 0x2b = _ at hcutName hcutHex
  simp only [go.note.NewVerifier, hcutName, hcutHex, go.parseUint_as_bytes hlength hdigits hid, hdecode, ok_or, ok_bind,
    keyHash_eq]
  rw [reject_if_of_not (by simp [hbytes, isValidName_as_bytes_iff.mpr key.name_valid]), ok_bind,
    reject_if_of_not (by simp), ok_bind, reject_if_of_not (by simp), ok_bind, reject_if_of_not (by simp)]
  rfl

/-- The verifier-key text form is read back from what is written, is written back with a
lowercase key ID, belongs to the key that its name and key make, and is a key for Go's reference. -/
theorem verifier_key_text :
    (∀ name public_key key, NoteVerifierKey.new name public_key = .ok key →
      NoteVerifierKey.from_spec key.to_spec = .ok key) ∧
    ∀ spec key, NoteVerifierKey.from_spec spec = .ok key →
      NoteVerifierKey.new key.name key.public_key = .ok key ∧
      (∃ hex_id key_b64, spec = key.name ++ '+' :: (hex_id ++ '+' :: key_b64) ∧ hex_id.length = 8 ∧
        key.to_spec = key.name ++ '+' :: (hex_id.map Char.toLower ++ '+' :: key_b64) ∧
        parse_key_id_hex hex_id = key_id key.name key.public_key) ∧
      ∀ ed25519_Verify, go.note.NewVerifier ed25519_Verify (as_bytes spec) =
        .ok ⟨as_bytes key.name, go.note.keyHash (as_bytes key.name) (0x01 :: key.public_key.as_slice),
          ed25519_Verify key.public_key.as_slice⟩ := by
  refine ⟨fun _ _ key _ => key.from_spec_to_spec, fun spec key h => ⟨key.new_name_public_key, ?_, fun ed25519_Verify => ?_⟩⟩
  · obtain ⟨hex_id, hlength, hdigits, hid, hspec⟩ := NoteVerifierKey.from_spec_eq_ok_iff.mp h
    refine ⟨hex_id, _, hspec, hlength, ?_, ?_⟩
    · rw [NoteVerifierKey.to_spec, hid, hex_lower_hex_bytes (by omega) hdigits]
      simp
    · rw [key.key_id_eq, parse_key_id_hex_eq_ok_iff]
      exact ⟨hlength, hdigits, hid⟩
  · rw [keyHash_eq]
    exact newVerifier_of_from_spec h ed25519_Verify

end Text

section

open reference

def zero_key : NoteVerifierKey := ⟨"origin".toList, of_hex 4 0xe2b6c93f, zero_public_key, by decide +kernel⟩

/-- The spec of the zero seed's key, its key ID in uppercase. -/
def uppercase_spec : Str := "origin+E2B6C93F+ATtqJ7zOtqQtYqOo0CpvDXNlMhV3HeJDpjrASKGLWdop".toList

theorem verifier_key_text_uppercase :
    NoteVerifierKey.new zero_key.name zero_key.public_key = .ok zero_key ∧
      ∀ ed25519_Verify, go.note.NewVerifier ed25519_Verify (as_bytes uppercase_spec) =
        .ok ⟨as_bytes zero_key.name, go.note.keyHash (as_bytes zero_key.name) (0x01 :: zero_key.public_key.as_slice),
          ed25519_Verify zero_key.public_key.as_slice⟩ := by
  have hspec : NoteVerifierKey.from_spec uppercase_spec = .ok zero_key := by
    refine NoteVerifierKey.from_spec_eq_ok_iff.mpr ⟨"E2B6C93F".toList, ?_⟩
    decide +kernel
  have htext := verifier_key_text.2 uppercase_spec zero_key hspec
  exact ⟨htext.1, htext.2.2⟩

end

end lys
