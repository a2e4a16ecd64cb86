import Lys.Crates
import Lys.Error
import Lys.RustStd.Str

open rust

namespace lys

/-- Domain-separation tag of the key derivation. -/
def SEAL_INFO : Bytes := as_bytes "lys-sealed-envelope/v1".toList

def HKDF_OUTPUT_LEN : Nat := 44

def AES_KEY_LEN : Nat := 32

def NONCE_LEN : Nat := 12

/-- Sealed payload bound to a recipient's X25519 public key. -/
structure SealedEnvelope where
  ephemeral_public_key : U8Array 32
  ciphertext : Bytes
  nonce : U8Array NONCE_LEN
deriving DecidableEq

/-- Every byte that travels with an envelope. -/
def SealedEnvelope.attestation_bytes (envelope : SealedEnvelope) : Bytes :=
  envelope.ephemeral_public_key.as_slice ++ envelope.ciphertext ++ envelope.nonce.as_slice

/-- The AES key and the nonce of a shared secret between two public keys. -/
def derive_key_and_nonce [HkdfSha256] (shared_secret : Bytes) (ephemeral_public_key recipient_public_key : U8Array 32) :
    TrustResult (U8Array AES_KEY_LEN × U8Array NONCE_LEN) := do
  let info := SEAL_INFO ++ ephemeral_public_key.as_slice ++ recipient_public_key.as_slice
  let okm ← (HkdfSha256.expand HKDF_OUTPUT_LEN shared_secret info).mapError fun e =>
    .Seal s!"HKDF expand failed: {e}"
  return (⟨okm.as_slice.take AES_KEY_LEN, by simp [AES_KEY_LEN, HKDF_OUTPUT_LEN]⟩,
    ⟨okm.as_slice.drop AES_KEY_LEN, by simp [AES_KEY_LEN, HKDF_OUTPUT_LEN, NONCE_LEN]⟩)

variable [X25519Dalek] [HkdfSha256] [Aes256Gcm]

/-- `seal`: encrypts a payload for a recipient; `ephemeral_seed` is what the random generator
fills the seed with. -/
def seal_envelope (payload : Bytes) (recipient_public_key ephemeral_seed : U8Array 32) : TrustResult SealedEnvelope := do
  let ephemeral_public := X25519Dalek.public_key ephemeral_seed
  let shared := X25519Dalek.diffie_hellman ephemeral_seed recipient_public_key
  reject_if (X25519Dalek.was_contributory shared = false) (.Seal "recipient public key is a low-order point")
  let (key_bytes, nonce_bytes) ← derive_key_and_nonce shared.as_slice ephemeral_public recipient_public_key
  let ciphertext ← (Aes256Gcm.encrypt key_bytes nonce_bytes payload).mapError fun e =>
    .Seal s!"AES-256-GCM encryption failed: {e}"
  return { ephemeral_public_key := ephemeral_public, ciphertext, nonce := nonce_bytes }

/-- `open`: decrypts an envelope with the recipient's secret. -/
def open_envelope (envelope : SealedEnvelope) (recipient_private_key : U8Array 32) : TrustResult Bytes := do
  let recipient_public := X25519Dalek.public_key recipient_private_key
  let shared := X25519Dalek.diffie_hellman recipient_private_key envelope.ephemeral_public_key
  reject_if (X25519Dalek.was_contributory shared = false) .UnsealFailed
  let (key_bytes, _) ← (derive_key_and_nonce shared.as_slice envelope.ephemeral_public_key
    recipient_public).mapError fun _ => .UnsealFailed
  (Aes256Gcm.decrypt key_bytes envelope.nonce envelope.ciphertext).mapError fun _ => .UnsealFailed

/-- Every failure to open is the one unsealing error. -/
theorem eq_unsealFailed_of_open_envelope {envelope : SealedEnvelope} {secret : U8Array 32} {e : TrustError}
    (h : open_envelope envelope secret = .error e) : e = .UnsealFailed := by
  simp only [open_envelope, reject_if] at h
  split at h
  · exact (Except.error.inj h).symm
  · rw [ok_bind] at h
    cases hderive : derive_key_and_nonce
        (X25519Dalek.diffie_hellman secret envelope.ephemeral_public_key).as_slice
        envelope.ephemeral_public_key (X25519Dalek.public_key secret) with
    | error e' =>
      rw [hderive] at h
      exact (Except.error.inj h).symm
    | ok keys =>
      rw [hderive] at h
      change (Aes256Gcm.decrypt keys.1 envelope.nonce envelope.ciphertext).mapError _ = _ at h
      cases hdecrypt : Aes256Gcm.decrypt keys.1 envelope.nonce envelope.ciphertext with
      | error e' =>
        rw [hdecrypt] at h
        exact (Except.error.inj h).symm
      | ok payload =>
        rw [hdecrypt] at h
        cases h

end lys
