import Lys.Attestation.Artifact
import Lys.Keys.Identity
import Lys.Reference

open rust

namespace lys

/-- SHA-256 digest of `bytes`. -/
def sha256_digest [Sha2] (bytes : Bytes) : U8Array 32 := sha256 bytes

section Sign

variable [Sha2] [Ed25519Dalek]

/-- Signs the hash of a payload at the time `now` that the clock shows. -/
def sign_attestation (payload : Bytes) (signing_key : Ed25519Identity) (now : Int64) : Attestation :=
  let payload_hash := sha256_digest payload
  let signer_public_key := signing_key.public_key_bytes
  let protectedPart := protected_bytes signer_public_key
  let claims := claims_bytes payload_hash now
  let signature := signing_key.sign (sig_structure_bytes protectedPart claims)
  { payload_hash, signature, signer_public_key, timestamp := now }

/-- Verifies an attestation over a payload. -/
def verify_attestation (attestation : Attestation) (payload : Bytes) : TrustResult Unit := do
  let recomputed := sha256_digest payload
  reject_if (recomputed ≠ attestation.payload_hash) .InvalidSignature
  let protectedPart := protected_bytes attestation.signer_public_key
  let claims := claims_bytes attestation.payload_hash attestation.timestamp
  let sig_structure := sig_structure_bytes protectedPart claims
  Ed25519Identity.verify attestation.signer_public_key sig_structure attestation.signature.as_slice

theorem verify_attestation_eq_ok_iff {attestation : Attestation} {payload : Bytes} :
    verify_attestation attestation payload = .ok () ↔ attestation.payload_hash = sha256 payload ∧
      Ed25519Dalek.is_valid_key attestation.signer_public_key = true ∧
      Ed25519Dalek.verify_strict attestation.signer_public_key
        (sig_structure_bytes (protected_bytes attestation.signer_public_key)
          (claims_bytes attestation.payload_hash attestation.timestamp)) attestation.signature = true := by
  simp only [verify_attestation, bind_eq_ok_iff, reject_if_eq_ok_iff, ne_eq, Decidable.not_not,
    Ed25519Identity.verify_eq_ok_iff]
  constructor
  · rintro ⟨_, hhash, signature, hsignature, hverify⟩
    obtain rfl := U8Array.as_slice_injective hsignature
    exact ⟨hhash.symm, hverify⟩
  · rintro ⟨hhash, hverify⟩
    exact ⟨(), hhash.symm, _, rfl, hverify⟩

variable [Ciborium]

/-- Parses an artifact and verifies it against a payload. -/
def verify_attestation_bytes (cose payload : Bytes) : TrustResult Attestation := do
  let attestation ← Attestation.from_cose_bytes cose
  verify_attestation attestation payload
  return attestation

/-- The attestation format is its canonical image: parsing inverts encoding and accepts
nothing else, artifacts are 191 to 199 bytes long, and verification accepts the canonical
artifacts of the payload whose signature verifies. -/
theorem attestation_format [Rfc8949Ciborium] :
    (∀ (c : Bytes) (a : Attestation), Attestation.from_cose_bytes c = .ok a ↔ c = a.to_cose_bytes) ∧
    (∀ a : Attestation, 191 ≤ a.to_cose_bytes.length ∧ a.to_cose_bytes.length ≤ 199) ∧
    (∀ (c p : Bytes) (a : Attestation), verify_attestation_bytes c p = .ok a ↔
      c = a.to_cose_bytes ∧ a.payload_hash = sha256 p ∧
        Ed25519Dalek.is_valid_key a.signer_public_key = true ∧
        Ed25519Dalek.verify_strict a.signer_public_key
          (sig_structure_bytes (protected_bytes a.signer_public_key) (claims_bytes a.payload_hash a.timestamp))
          a.signature = true) := by
  refine ⟨fun _ _ => Attestation.from_cose_bytes_eq_ok_iff, Attestation.length_to_cose_bytes, ?_⟩
  intro c p a
  simp only [verify_attestation_bytes, bind_eq_ok_iff, Attestation.from_cose_bytes_eq_ok_iff, pure_eq_ok_iff]
  constructor
  · rintro ⟨_, hparse, _, hverify, rfl⟩
    exact ⟨hparse, verify_attestation_eq_ok_iff.mp hverify⟩
  · rintro ⟨hparse, hverify⟩
    exact ⟨a, hparse, (), verify_attestation_eq_ok_iff.mpr hverify, rfl⟩

end Sign

section

open reference

/-- The attestation of one byte by the zero identity. -/
theorem attestation_format_one_byte :
    verify_attestation_bytes (sign_attestation [0x78] zero_identity 1700000000000).to_cose_bytes [0x78] =
      .ok (sign_attestation [0x78] zero_identity 1700000000000) := by
  refine (attestation_format.2.2 _ _ _).mpr ⟨rfl, rfl, rfl, ?_⟩
  decide +kernel

end

end lys
