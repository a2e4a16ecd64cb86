import Lys.Attestation.Encoding

open rust

namespace lys

/-- Signed attestation over a payload's hash, the parsed form of the COSE artifact. -/
structure Attestation where
  payload_hash : U8Array 32
  signature : U8Array 64
  signer_public_key : U8Array 32
  timestamp : Int64
deriving DecidableEq

namespace Attestation

/-- The canonical artifact of an attestation. -/
def to_cose_bytes (attestation : Attestation) : Bytes :=
  artifact_bytes attestation.signer_public_key attestation.payload_hash attestation.timestamp attestation.signature

theorem length_to_cose_bytes (attestation : Attestation) :
    191 ≤ attestation.to_cose_bytes.length ∧ attestation.to_cose_bytes.length ≤ 199 :=
  length_artifact_bytes _ _ _ _

variable [Ciborium]

/-- Parses an artifact, which must be the canonical encoding of its own fields. -/
def from_cose_bytes (bytes : Bytes) : TrustResult Attestation := do
  let fields ← decode_fields bytes
  let canonical := artifact_bytes fields.signer_public_key fields.payload_hash fields.timestamp fields.signature
  reject_if (canonical ≠ bytes) .InvalidSignature
  return { payload_hash := fields.payload_hash, signature := fields.signature
           signer_public_key := fields.signer_public_key, timestamp := fields.timestamp }

/-- Parsing accepts the canonical image of the attestations: the gate admits nothing else,
and the decoder reads every canonical artifact back. -/
theorem from_cose_bytes_eq_ok_iff [Rfc8949Ciborium] {bytes : Bytes} {attestation : Attestation} :
    from_cose_bytes bytes = .ok attestation ↔ bytes = attestation.to_cose_bytes := by
  constructor
  · intro h
    simp only [from_cose_bytes, bind_eq_ok_iff, reject_if_eq_ok_iff, ne_eq, Decidable.not_not, pure_eq_ok_iff] at h
    obtain ⟨fields, _, _, hcanonical, rfl⟩ := h
    exact hcanonical.symm
  · rintro rfl
    simp only [from_cose_bytes, to_cose_bytes, decode_fields_artifact_bytes, ok_bind, ne_eq, not_true_eq_false,
      not_false_eq_true, reject_if_of_not]
    rfl

end Attestation

end lys
