import Lys.Attestation.Sign
import Lys.Seal.SealedEnvelope

open rust

namespace lys

/-- Context tag of the attested envelope bytes. -/
def SEALED_ENVELOPE_CONTEXT_V1 : Bytes := as_bytes "lys/sealed-envelope/v1".toList

/-- The message that is attested for an envelope. -/
def contextualized_envelope_bytes (envelope : SealedEnvelope) : Bytes :=
  SEALED_ENVELOPE_CONTEXT_V1 ++ envelope.attestation_bytes

section Authenticated

variable [Sha2] [Ed25519Dalek] [X25519Dalek] [HkdfSha256] [Aes256Gcm]

/-- Seals a payload and attests the envelope. -/
def sign_and_seal (payload : Bytes) (sender_identity : Ed25519Identity)
    (recipient_x25519_public_key ephemeral_seed : U8Array 32) (now : Int64) :
    TrustResult (SealedEnvelope × Attestation) := do
  let envelope ← seal_envelope payload recipient_x25519_public_key ephemeral_seed
  let attestation := sign_attestation (contextualized_envelope_bytes envelope) sender_identity now
  return (envelope, attestation)

/-- Verifies the sender's attestation of an envelope and then opens it. -/
def open_and_verify (envelope : SealedEnvelope) (attestation : Attestation)
    (sender_public_key recipient_x25519_secret : U8Array 32) : TrustResult Bytes := do
  reject_if (attestation.signer_public_key ≠ sender_public_key) .AttestationFailed
  (verify_attestation attestation (contextualized_envelope_bytes envelope)).mapError fun _ => .AttestationFailed
  open_envelope envelope recipient_x25519_secret

/-- What a sender does with its identity. -/
inductive SenderAction where
  /-- `lys attest`, or any other caller of `sign_attestation`. -/
  | attest (payload : Bytes) (now : Int64)
  | sign_and_seal (payload : Bytes) (recipient_x25519_public_key ephemeral_seed : U8Array 32) (now : Int64)

/-- The byte strings signed through the generic path. -/
def generic_payloads (history : List SenderAction) : List Bytes :=
  history.filterMap fun
    | .attest payload _ => some payload
    | .sign_and_seal .. => none

/-- The attestations made through the generic path. -/
def generic_attestations (sender : Ed25519Identity) (history : List SenderAction) : List Attestation :=
  history.filterMap fun
    | .attest payload now => some (sign_attestation payload sender now)
    | .sign_and_seal .. => none

/-- The envelopes produced with `sign_and_seal`. -/
def sealed_envelopes (sender : Ed25519Identity) (history : List SenderAction) : List SealedEnvelope :=
  history.filterMap fun
    | .attest .. => none
    | .sign_and_seal payload recipient seed now =>
      ((sign_and_seal payload sender recipient seed now).map Prod.fst).toOption

omit [X25519Dalek] [HkdfSha256] [Aes256Gcm] in
theorem verify_attestation_sign_attestation [GenuineEd25519] (payload : Bytes) (sender : Ed25519Identity) (now : Int64) :
    verify_attestation (sign_attestation payload sender now) payload = .ok () := by
  rw [verify_attestation, reject_if_of_not (fun h => h rfl), ok_bind]
  exact sender.verify_sign _

/-- A genuine attestation of an envelope's message passes the gate. -/
theorem open_and_verify_sign_attestation [GenuineEd25519] (envelope : SealedEnvelope) (sender : Ed25519Identity)
    (secret : U8Array 32) (now : Int64) :
    open_and_verify envelope (sign_attestation (contextualized_envelope_bytes envelope) sender now)
      sender.public_key_bytes secret = open_envelope envelope secret := by
  rw [open_and_verify, reject_if_of_not (fun h => h rfl), ok_bind, verify_attestation_sign_attestation]
  rfl

/-- An attestation of another message does not pass the gate. -/
theorem open_and_verify_eq_attestationFailed {envelope : SealedEnvelope} {attestation : Attestation}
    (h : attestation.payload_hash ≠ sha256 (contextualized_envelope_bytes envelope))
    (sender_public_key secret : U8Array 32) :
    open_and_verify envelope attestation sender_public_key secret = .error .AttestationFailed := by
  have hverify : verify_attestation attestation (contextualized_envelope_bytes envelope) = .error .InvalidSignature := by
    rw [verify_attestation, reject_if, if_pos fun heq => h heq.symm]
    rfl
  rw [open_and_verify, hverify, reject_if]
  split <;> rfl

/-- No generic attestation passes the gate for an envelope that the sender did not seal
exactly when none of the generically signed byte strings is the tagged form of the envelope.
SHA-256 is assumed not to collide on that form and the signed strings. -/
theorem generic_attestations_rejected_iff [GenuineEd25519] (sender : Ed25519Identity) (history : List SenderAction)
    (envelope : SealedEnvelope) (secret : U8Array 32)
    (hsha : ∀ payload ∈ generic_payloads history,
      sha256 payload = sha256 (contextualized_envelope_bytes envelope) →
        payload = contextualized_envelope_bytes envelope) :
    (envelope ∉ sealed_envelopes sender history → ∀ attestation ∈ generic_attestations sender history,
        open_and_verify envelope attestation sender.public_key_bytes secret = .error .AttestationFailed) ↔
      (envelope ∉ sealed_envelopes sender history → ∀ payload ∈ generic_payloads history,
        payload ≠ contextualized_envelope_bytes envelope) := by
  constructor
  · intro h hfresh payload hpayload heq
    obtain ⟨action, haction, hattest⟩ := List.mem_filterMap.mp hpayload
    cases action with
    | sign_and_seal => cases hattest
    | attest signed now =>
      obtain rfl := Option.some.inj hattest
      have hmem : sign_attestation signed sender now ∈ generic_attestations sender history :=
        List.mem_filterMap.mpr ⟨_, haction, rfl⟩
      have hgate := h hfresh _ hmem
      rw [heq, open_and_verify_sign_attestation] at hgate
      cases eq_unsealFailed_of_open_envelope hgate
  · intro h hfresh attestation hattestation
    obtain ⟨action, haction, hattest⟩ := List.mem_filterMap.mp hattestation
    cases action with
    | sign_and_seal => cases hattest
    | attest payload now =>
      obtain rfl := Option.some.inj hattest
      have hmem : payload ∈ generic_payloads history := List.mem_filterMap.mpr ⟨_, haction, rfl⟩
      apply open_and_verify_eq_attestationFailed
      exact fun hhash => h hfresh payload hmem (hsha payload hmem hhash)

end Authenticated

section

open reference

/-- An envelope that someone else sealed for the holder of `one_secret`. -/
def foreign_envelope : SealedEnvelope :=
  ⟨two_public_key, to_be_bytes 17 0x96c3aefccc6dea016156f84ca22e13a4f1, of_hex 12 0x369a107449c885078d7165bb⟩

/-- The sender attests a file with the tagged bytes of the foreign envelope. -/
def misled_history : List SenderAction := [.attest (contextualized_envelope_bytes foreign_envelope) 1700000000000]

/-- A generic attestation opens a foreign envelope as the sender's. -/
theorem generic_attestation_opens_foreign_envelope :
    seal_envelope [0x78] (X25519Dalek.public_key one_secret) two_secret = .ok foreign_envelope ∧
      foreign_envelope ∉ sealed_envelopes zero_identity misled_history ∧
      (∃ attestation ∈ generic_attestations zero_identity misled_history,
        open_and_verify foreign_envelope attestation zero_identity.public_key_bytes one_secret = .ok [0x78]) ∧
      ¬ ∀ attestation ∈ generic_attestations zero_identity misled_history,
        open_and_verify foreign_envelope attestation zero_identity.public_key_bytes one_secret =
          .error .AttestationFailed := by
  have hopen : open_and_verify foreign_envelope (sign_attestation (contextualized_envelope_bytes foreign_envelope)
      zero_identity 1700000000000) zero_identity.public_key_bytes one_secret = .ok [0x78] := by
    decide +kernel
  refine ⟨by decide +kernel, by simp [sealed_envelopes, misled_history], ⟨_, List.mem_singleton.mpr rfl, hopen⟩, ?_⟩
  intro h
  have hgate := h _ (List.mem_singleton.mpr rfl)
  rw [hopen] at hgate
  cases hgate

/-- Another attestation of the sender does not open it. -/
theorem generic_attestations_rejected_iff_other_payload :
    (foreign_envelope ∉ sealed_envelopes zero_identity [.attest [0x78] 0] →
        ∀ attestation ∈ generic_attestations zero_identity [.attest [0x78] 0],
          open_and_verify foreign_envelope attestation zero_identity.public_key_bytes one_secret =
            .error .AttestationFailed) ↔
      (foreign_envelope ∉ sealed_envelopes zero_identity [.attest [0x78] 0] →
        ∀ payload ∈ generic_payloads [.attest [0x78] 0], payload ≠ contextualized_envelope_bytes foreign_envelope) := by
  have hne : sha256 [0x78] ≠ sha256 (contextualized_envelope_bytes foreign_envelope) := by
    decide +kernel
  apply generic_attestations_rejected_iff
  intro payload hpayload heq
  obtain rfl := List.mem_singleton.mp hpayload
  exact absurd heq hne

end

end lys
