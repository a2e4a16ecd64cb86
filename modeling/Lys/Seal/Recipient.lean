import Lys.Reference
import Lys.Seal.SealedEnvelope

open rust

namespace lys

/-- `key` is taken as the public key of `secret` in every key agreement. -/
def IsKeyOf [X25519Dalek] (key secret : U8Array 32) : Prop :=
  ∀ a, X25519Dalek.diffie_hellman a key = X25519Dalek.diffie_hellman a (X25519Dalek.public_key secret)

section Recipient

variable [X25519Dalek] [HkdfSha256] [Aes256Gcm]
variable {payload : Bytes} {recipient_public_key ephemeral_seed secret : U8Array 32} {envelope : SealedEnvelope}

/-- An envelope holds the ciphertext under the keys of the recipient bytes as supplied. -/
theorem seal_envelope_eq_ok_iff :
    seal_envelope payload recipient_public_key ephemeral_seed = .ok envelope ↔
      X25519Dalek.was_contributory (X25519Dalek.diffie_hellman ephemeral_seed recipient_public_key) = true ∧
      envelope.ephemeral_public_key = X25519Dalek.public_key ephemeral_seed ∧
      ∃ key, derive_key_and_nonce (X25519Dalek.diffie_hellman ephemeral_seed recipient_public_key).as_slice
          envelope.ephemeral_public_key recipient_public_key = .ok (key, envelope.nonce) ∧
        Aes256Gcm.encrypt key envelope.nonce payload = .ok envelope.ciphertext := by
  simp only [seal_envelope, bind_eq_ok_iff, reject_if_eq_ok_iff, mapError_eq_ok_iff, pure_eq_ok_iff,
    Bool.not_eq_false]
  constructor
  · rintro ⟨_, hcontributory, ⟨key, nonce⟩, hkeys, ciphertext, hencrypt, rfl⟩
    exact ⟨hcontributory, rfl, key, hkeys, hencrypt⟩
  · rintro ⟨hcontributory, hephemeral, key, hkeys, hencrypt⟩
    rw [hephemeral] at hkeys
    refine ⟨(), hcontributory, (key, envelope.nonce), hkeys, envelope.ciphertext, hencrypt, ?_⟩
    rw [← hephemeral]

/-- Opening decrypts under the keys of the public key recomputed from the secret. -/
theorem open_envelope_eq_ok_iff :
    open_envelope envelope secret = .ok payload ↔
      X25519Dalek.was_contributory (X25519Dalek.diffie_hellman secret envelope.ephemeral_public_key) = true ∧
      ∃ keys, derive_key_and_nonce (X25519Dalek.diffie_hellman secret envelope.ephemeral_public_key).as_slice
          envelope.ephemeral_public_key (X25519Dalek.public_key secret) = .ok keys ∧
        Aes256Gcm.decrypt keys.1 envelope.nonce envelope.ciphertext = .ok payload := by
  simp only [open_envelope, bind_eq_ok_iff, reject_if_eq_ok_iff, mapError_eq_ok_iff, Bool.not_eq_false]
  constructor
  · rintro ⟨_, hcontributory, keys, hkeys, hdecrypt⟩
    exact ⟨hcontributory, keys, hkeys, hdecrypt⟩
  · rintro ⟨hcontributory, keys, hkeys, hdecrypt⟩
    exact ⟨(), hcontributory, keys, hkeys, hdecrypt⟩

variable [Rfc7748X25519]

omit [HkdfSha256] [Aes256Gcm] in
/-- Sender and recipient agree on the shared secret. -/
theorem diffie_hellman_eq_of_isKeyOf (h : IsKeyOf recipient_public_key secret) :
    X25519Dalek.diffie_hellman ephemeral_seed recipient_public_key =
      X25519Dalek.diffie_hellman secret (X25519Dalek.public_key ephemeral_seed) := by
  rw [h, Rfc7748X25519.diffie_hellman_comm]

/-- The matching secret opens what was sealed exactly when the recipient bytes are the ones
that the secret gives. HKDF is assumed to derive distinct AES keys from two encodings of the
recipient, and AES-GCM to reject the ciphertext under the other key. -/
theorem open_envelope_seal_envelope_iff [GenuineAes256Gcm] {keys keys' : U8Array AES_KEY_LEN × U8Array NONCE_LEN}
    (hkey : IsKeyOf recipient_public_key secret)
    (hseal : seal_envelope payload recipient_public_key ephemeral_seed = .ok envelope)
    (hkeys : derive_key_and_nonce (X25519Dalek.diffie_hellman secret envelope.ephemeral_public_key).as_slice
      envelope.ephemeral_public_key recipient_public_key = .ok keys)
    (hkeys' : derive_key_and_nonce (X25519Dalek.diffie_hellman secret envelope.ephemeral_public_key).as_slice
      envelope.ephemeral_public_key (X25519Dalek.public_key secret) = .ok keys')
    (hhkdf : recipient_public_key ≠ X25519Dalek.public_key secret → keys.1 ≠ keys'.1)
    (hgcm : keys.1 ≠ keys'.1 → (Aes256Gcm.decrypt keys'.1 envelope.nonce envelope.ciphertext).isOk = false) :
    open_envelope envelope secret = .ok payload ↔ recipient_public_key = X25519Dalek.public_key secret := by
  obtain ⟨hcontributory, hephemeral, key, hderive, hencrypt⟩ := seal_envelope_eq_ok_iff.mp hseal
  have hshared : X25519Dalek.diffie_hellman ephemeral_seed recipient_public_key =
      X25519Dalek.diffie_hellman secret envelope.ephemeral_public_key := by
    rw [hephemeral]
    exact diffie_hellman_eq_of_isKeyOf hkey
  rw [hshared] at hcontributory hderive
  rw [open_envelope_eq_ok_iff]
  constructor
  · rintro ⟨_, opened, hopened, hdecrypt⟩
    obtain rfl := Except.ok.inj (hkeys'.symm.trans hopened)
    by_contra hne
    have hreject := hgcm (hhkdf hne)
    rw [hdecrypt] at hreject
    cases hreject
  · rintro rfl
    exact ⟨hcontributory, _, hderive, GenuineAes256Gcm.decrypt_eq_ok _ _ _ _ hencrypt⟩

end Recipient

section

open reference

/-- The public key of `one_secret` with bit 255 set. -/
def one_public_key_high : U8Array 32 :=
  of_hex 32 0xa4e09292b651c278b9772c569f5fa9bb13d906b46ab68c9df9dc2b4409f8a289

theorem isKeyOf_one_public_key_high : IsKeyOf one_public_key_high one_secret := by
  have hclear : clear_top_bit one_public_key_high = clear_top_bit (x25519_public_key one_secret) := by
    decide +kernel
  intro a
  change shared_secret_of _ (clear_top_bit one_public_key_high) = shared_secret_of _ _
  rw [hclear]
  rfl

/-- What is sealed to the key with bit 255 set. -/
def high_envelope : SealedEnvelope :=
  ⟨two_public_key, to_be_bytes 17 0x89557c64bd4cb64ee12489ee728c186e43, of_hex 12 0x7447a933da9a53c9753f9b47⟩

theorem seal_envelope_high : seal_envelope [0x78] one_public_key_high two_secret = .ok high_envelope := by
  decide +kernel

/-- The matching secret does not open an envelope that was sealed to its key with bit 255 set. -/
theorem high_envelope_not_opened :
    (IsKeyOf one_public_key_high one_secret ∧
      seal_envelope [0x78] one_public_key_high two_secret = .ok high_envelope ∧
      open_envelope high_envelope one_secret = .error .UnsealFailed) ∧
    ¬ ∀ payload key seed secret envelope, IsKeyOf key secret →
        seal_envelope payload key seed = .ok envelope → open_envelope envelope secret = .ok payload := by
  have hopen : open_envelope high_envelope one_secret = .error .UnsealFailed := by decide +kernel
  refine ⟨⟨isKeyOf_one_public_key_high, seal_envelope_high, hopen⟩, fun h => ?_⟩
  have hopened := h _ _ _ _ _ isKeyOf_one_public_key_high seal_envelope_high
  rw [hopen] at hopened
  cases hopened

/-- The failure is the one that the equivalence gives. -/
theorem open_envelope_seal_envelope_iff_high :
    open_envelope high_envelope one_secret = .ok [0x78] ↔
      one_public_key_high = X25519Dalek.public_key one_secret := by
  apply @open_envelope_seal_envelope_iff _ _ _ [0x78] one_public_key_high two_secret one_secret high_envelope _ _
    (of_hex 32 0x7e7d8b7a8b4164882d6f6b5ee57ee1211f36179b8fa48fe2a96b147b782a6538,
      of_hex 12 0x7447a933da9a53c9753f9b47)
    (of_hex 32 0x9a85f44649016966b4dcb4d4320729d47a4f52e2308266b2a1b6f3dc6c994a1b,
      of_hex 12 0x369a107449c885078d7165bb) isKeyOf_one_public_key_high seal_envelope_high
  · decide +kernel
  · decide +kernel
  · intro _
    decide +kernel
  · intro _
    decide +kernel

end

end lys
