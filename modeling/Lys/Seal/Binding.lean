import Lys.Effect.Program
import Lys.Keys.KeyAgreement
import Lys.Seal.Authenticated
import Lys.Seal.Recipient

open rust effect

namespace lys

/-- The bytes of an envelope determine its fields: the key in front and the nonce behind have
fixed lengths. -/
theorem attestation_bytes_injective : Function.Injective SealedEnvelope.attestation_bytes := by
  intro e e' h
  obtain ⟨key, ciphertext, nonce⟩ := e
  obtain ⟨key', ciphertext', nonce'⟩ := e'
  simp only [SealedEnvelope.attestation_bytes, List.append_assoc] at h
  obtain ⟨rfl, htail⟩ := U8Array.append_inj h
  obtain ⟨rfl, hnonce⟩ := List.append_inj' htail (by simp)
  rw [U8Array.as_slice_injective hnonce]

section Gate

variable [Sha2] [Ed25519Dalek]

/-- The attestation names the sender's key and is strictly signed over the envelope. -/
def PassesGate (envelope : SealedEnvelope) (attestation : Attestation) (sender_public_key : U8Array 32) : Prop :=
  attestation.signer_public_key = sender_public_key ∧
    attestation.payload_hash = sha256 (contextualized_envelope_bytes envelope) ∧
    Ed25519Dalek.is_valid_key sender_public_key = true ∧
    Ed25519Dalek.verify_strict sender_public_key
      (sig_structure_bytes (protected_bytes sender_public_key)
        (claims_bytes (sha256 (contextualized_envelope_bytes envelope)) attestation.timestamp))
      attestation.signature = true

variable {envelope envelope' : SealedEnvelope} {attestation : Attestation}
  {sender_public_key recipient_x25519_secret : U8Array 32}

theorem passesGate_iff : PassesGate envelope attestation sender_public_key ↔
    attestation.signer_public_key = sender_public_key ∧
      verify_attestation attestation (contextualized_envelope_bytes envelope) = .ok () := by
  rw [PassesGate, verify_attestation_eq_ok_iff]
  constructor
  · rintro ⟨rfl, hhash, hverify⟩
    rw [← hhash] at hverify
    exact ⟨rfl, hhash, hverify⟩
  · rintro ⟨rfl, hhash, hverify⟩
    refine ⟨rfl, hhash, ?_⟩
    rw [← hhash]
    exact hverify

/-- One attestation passes for one envelope, unless two tagged envelopes collide. -/
theorem PassesGate.unique (h : PassesGate envelope attestation sender_public_key)
    (h' : PassesGate envelope' attestation sender_public_key) :
    envelope = envelope' ∨
      Sha256Collision [contextualized_envelope_bytes envelope, contextualized_envelope_bytes envelope'] := by
  by_cases hbytes : contextualized_envelope_bytes envelope = contextualized_envelope_bytes envelope'
  · rw [contextualized_envelope_bytes, contextualized_envelope_bytes, List.append_cancel_left_eq] at hbytes
    exact .inl (attestation_bytes_injective hbytes)
  · have hhash := h.2.1.symm.trans h'.2.1
    exact .inr ⟨_, by simp, _, by simp, hbytes, hhash⟩

variable [X25519Dalek] [HkdfSha256] [Aes256Gcm]

theorem open_and_verify_of_passesGate (h : PassesGate envelope attestation sender_public_key) :
    open_and_verify envelope attestation sender_public_key recipient_x25519_secret =
      open_envelope envelope recipient_x25519_secret := by
  obtain ⟨rfl, hverify⟩ := passesGate_iff.mp h
  rw [open_and_verify, reject_if_of_not (fun hne => hne rfl), ok_bind, hverify]
  rfl

theorem open_and_verify_of_not_passesGate (h : ¬ PassesGate envelope attestation sender_public_key) :
    open_and_verify envelope attestation sender_public_key recipient_x25519_secret = .error .AttestationFailed := by
  rw [passesGate_iff, not_and] at h
  rw [open_and_verify]
  by_cases hsender : attestation.signer_public_key = sender_public_key
  · rw [reject_if_of_not (fun hne => hne hsender), ok_bind]
    cases hverify : verify_attestation attestation (contextualized_envelope_bytes envelope) with
    | ok u => exact absurd hverify (h hsender)
    | error e => rfl
  · rw [reject_if, if_pos hsender]
    rfl

/-- The opening of an envelope as a call. The state has what was opened, the last one first. -/
abbrev Opening : Interface where
  Who := Unit
  State := List (SealedEnvelope × U8Array 32)
  Choice := Unit
  Op := SealedEnvelope × U8Array 32
  Reply _ := TrustResult Bytes
  apply _ op _ opened := some (open_envelope op.1 op.2, op :: opened)

/-- `open_and_verify` with the decryption step as a call. -/
def open_and_verify_calls (envelope : SealedEnvelope) (attestation : Attestation)
    (sender_public_key recipient_x25519_secret : U8Array 32) : Prog Opening TrustError Bytes := do
  Prog.of_except (reject_if (attestation.signer_public_key ≠ sender_public_key) .AttestationFailed)
  Prog.of_except ((verify_attestation attestation (contextualized_envelope_bytes envelope)).mapError fun _ =>
    .AttestationFailed)
  Prog.of_except (← Prog.perform (I := Opening) (envelope, recipient_x25519_secret))

/-- How a program ends that returns a result. -/
def outcome_of {ε α : Type} : Except ε α → Outcome ε α
  | .ok a => .done a
  | .error e => .failed e

theorem open_and_verify_calls_of_not_passesGate (h : ¬ PassesGate envelope attestation sender_public_key) :
    open_and_verify_calls envelope attestation sender_public_key recipient_x25519_secret = .fail .AttestationFailed := by
  rw [passesGate_iff, not_and] at h
  rw [open_and_verify_calls]
  by_cases hsender : attestation.signer_public_key = sender_public_key
  · rw [reject_if_of_not (fun hne => hne hsender)]
    cases hverify : verify_attestation attestation (contextualized_envelope_bytes envelope) with
    | ok u => exact absurd hverify (h hsender)
    | error e => rfl
  · rw [reject_if, if_pos hsender]
    rfl

theorem open_and_verify_calls_of_passesGate (h : PassesGate envelope attestation sender_public_key) :
    open_and_verify_calls envelope attestation sender_public_key recipient_x25519_secret =
      .op (envelope, recipient_x25519_secret) fun opened => Prog.of_except opened := by
  obtain ⟨rfl, hverify⟩ := passesGate_iff.mp h
  rw [open_and_verify_calls, reject_if_of_not (fun hne => hne rfl), hverify]
  rfl

/-- The calls end as `open_and_verify` does, and open nothing unless the gate is passed. -/
theorem run_open_and_verify_calls [Decidable (PassesGate envelope attestation sender_public_key)]
    (opened : List (SealedEnvelope × U8Array 32)) :
    (run () (open_and_verify_calls envelope attestation sender_public_key recipient_x25519_secret) [()] opened).outcome =
        some (outcome_of (open_and_verify envelope attestation sender_public_key recipient_x25519_secret)) ∧
      (run () (open_and_verify_calls envelope attestation sender_public_key recipient_x25519_secret) [()] opened).state =
        if PassesGate envelope attestation sender_public_key then (envelope, recipient_x25519_secret) :: opened
        else opened := by
  split
  next h =>
    rw [open_and_verify_calls_of_passesGate h, open_and_verify_of_passesGate h]
    cases hopen : open_envelope envelope recipient_x25519_secret <;> simp [run, hopen, outcome_of]
  next h =>
    rw [open_and_verify_calls_of_not_passesGate h, open_and_verify_of_not_passesGate h]
    exact ⟨rfl, rfl⟩

end Gate

section RoundTrip

variable [Sha2] [Ed25519Dalek] [X25519Dalek] [HkdfSha256] [Aes256Gcm]

theorem sign_and_seal_eq_ok {payload : Bytes} {sender : Ed25519Identity} {recipient_public_key seed : U8Array 32}
    {now : Int64} {envelope : SealedEnvelope} {attestation : Attestation}
    (h : sign_and_seal payload sender recipient_public_key seed now = .ok (envelope, attestation)) :
    seal_envelope payload recipient_public_key seed = .ok envelope ∧
      attestation = sign_attestation (contextualized_envelope_bytes envelope) sender now := by
  simp only [sign_and_seal, bind_eq_ok_iff, pure_eq_ok_iff, Prod.mk.injEq] at h
  obtain ⟨_, hseal, rfl, rfl⟩ := h
  exact ⟨hseal, rfl⟩

variable [Rfc7748X25519] [GenuineAes256Gcm]

omit [Sha2] [Ed25519Dalek] in
/-- The secret of a public key opens what was sealed to the key. -/
theorem open_envelope_of_seal_envelope {payload : Bytes} {secret seed : U8Array 32} {envelope : SealedEnvelope}
    (hseal : seal_envelope payload (X25519Dalek.public_key secret) seed = .ok envelope) :
    open_envelope envelope secret = .ok payload := by
  obtain ⟨hcontributory, hephemeral, key, hderive, hencrypt⟩ := seal_envelope_eq_ok_iff.mp hseal
  rw [Rfc7748X25519.diffie_hellman_comm, ← hephemeral] at hcontributory hderive
  exact open_envelope_eq_ok_iff.mpr
    ⟨hcontributory, _, hderive, GenuineAes256Gcm.decrypt_eq_ok _ _ _ _ hencrypt⟩

variable [Ed25519Scalar] [GenuineEd25519]

/-- What is signed and sealed for an identity opens with its secret. -/
theorem open_and_verify_of_sign_and_seal {payload : Bytes} {sender recipient : Ed25519Identity} {seed : U8Array 32}
    {now : Int64} {envelope : SealedEnvelope} {attestation : Attestation}
    (h : sign_and_seal payload sender recipient.x25519_public_key seed now = .ok (envelope, attestation)) :
    open_and_verify envelope attestation sender.public_key_bytes recipient.x25519_static_secret = .ok payload := by
  obtain ⟨hseal, rfl⟩ := sign_and_seal_eq_ok h
  rw [open_and_verify_sign_attestation, open_envelope_of_seal_envelope hseal]

/-- Authenticated opening binds the sender and every byte of the envelope: it succeeds exactly
behind the gate, nothing is opened before it, an attestation passes the gate for one envelope
unless SHA-256 collides, and what is signed and sealed for an identity opens with its secret. -/
theorem authenticated_opening_binds :
    (∀ envelope attestation sender_public_key secret payload,
      open_and_verify envelope attestation sender_public_key secret = .ok payload ↔
        PassesGate envelope attestation sender_public_key ∧ open_envelope envelope secret = .ok payload) ∧
    (∀ envelope attestation sender_public_key secret opened,
      (run () (open_and_verify_calls envelope attestation sender_public_key secret) [()] opened).outcome =
          some (outcome_of (open_and_verify envelope attestation sender_public_key secret)) ∧
        (PassesGate envelope attestation sender_public_key →
          (run () (open_and_verify_calls envelope attestation sender_public_key secret) [()] opened).state =
            (envelope, secret) :: opened) ∧
        (¬ PassesGate envelope attestation sender_public_key →
          (run () (open_and_verify_calls envelope attestation sender_public_key secret) [()] opened).state = opened ∧
            open_and_verify_calls envelope attestation sender_public_key secret = .fail .AttestationFailed)) ∧
    (∀ envelope envelope' attestation sender_public_key sender_public_key',
      PassesGate envelope attestation sender_public_key → PassesGate envelope' attestation sender_public_key' →
        (envelope.ephemeral_public_key = envelope'.ephemeral_public_key ∧ envelope.ciphertext = envelope'.ciphertext ∧
            envelope.nonce = envelope'.nonce) ∨
          Sha256Collision [contextualized_envelope_bytes envelope, contextualized_envelope_bytes envelope']) ∧
    ∀ payload (sender recipient : Ed25519Identity) seed now envelope attestation,
      sign_and_seal payload sender recipient.x25519_public_key seed now = .ok (envelope, attestation) →
        open_and_verify envelope attestation sender.public_key_bytes recipient.x25519_static_secret = .ok payload := by
  refine ⟨fun envelope attestation sender_public_key secret payload => ?_,
    fun envelope attestation sender_public_key secret opened => ?_,
    fun envelope envelope' attestation sender_public_key sender_public_key' h h' => ?_,
    fun payload sender recipient seed now envelope attestation h => open_and_verify_of_sign_and_seal h⟩
  · by_cases hgate : PassesGate envelope attestation sender_public_key
    · rw [open_and_verify_of_passesGate hgate]
      exact (and_iff_right hgate).symm
    · rw [open_and_verify_of_not_passesGate hgate]
      simp [hgate]
  · classical
    obtain ⟨hout, hstate⟩ :=
      @run_open_and_verify_calls _ _ envelope attestation sender_public_key secret _ _ _ _ opened
    refine ⟨hout, fun hgate => ?_, fun hgate => ⟨?_, open_and_verify_calls_of_not_passesGate hgate⟩⟩
    · rw [hstate, if_pos hgate]
    · rw [hstate, if_neg hgate]
  · obtain rfl : sender_public_key = sender_public_key' := h.1.symm.trans h'.1
    obtain rfl | hcollision := h.unique h'
    · exact .inl ⟨rfl, rfl, rfl⟩
    · exact .inr hcollision

end RoundTrip

section

open reference

/-- What the zero identity signs and seals for itself. -/
def zero_envelope : SealedEnvelope :=
  ⟨two_public_key, to_be_bytes 17 0x276e7613bde1d7abdd7db2fdf5b1b9ecc0, of_hex 12 0xb7481969afcc982c24f92ecf⟩

def zero_attestation : Attestation :=
  sign_attestation (contextualized_envelope_bytes zero_envelope) zero_identity 1700000000000

theorem authenticated_opening_binds_zero_identity :
    sign_and_seal [0x78] zero_identity zero_identity.x25519_public_key two_secret 1700000000000 =
        .ok (zero_envelope, zero_attestation) ∧
      open_and_verify zero_envelope zero_attestation zero_identity.public_key_bytes zero_identity.x25519_static_secret =
        .ok [0x78] := by
  have hseal : sign_and_seal [0x78] zero_identity zero_identity.x25519_public_key two_secret 1700000000000 =
      .ok (zero_envelope, zero_attestation) := by decide +kernel
  exact ⟨hseal, authenticated_opening_binds.2.2.2 _ _ _ _ _ _ _ hseal⟩

end

end lys
