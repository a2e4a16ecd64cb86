import Lys.Crates
import Lys.Error

open rust

namespace lys

variable [Ed25519Dalek]

/-- Ed25519 identity keypair. The verifying key is the one of the signing key's seed. -/
structure Ed25519Identity where
  signing_key : U8Array 32
  verifying_key : U8Array 32
  verifying_key_eq : verifying_key = Ed25519Dalek.verifying_key signing_key

namespace Ed25519Identity

def from_seed (seed : U8Array 32) : Ed25519Identity := ⟨seed, Ed25519Dalek.verifying_key seed, rfl⟩

def public_key_bytes (identity : Ed25519Identity) : U8Array 32 := identity.verifying_key

def sign (identity : Ed25519Identity) (message : Bytes) : U8Array 64 :=
  Ed25519Dalek.sign identity.signing_key message

/-- Strict verification against any public key. -/
def verify (public_key : U8Array 32) (message signature : Bytes) : TrustResult Unit := do
  let signature ← ok_or (U8Array.try_from 64 signature) .InvalidSignature
  reject_if (Ed25519Dalek.is_valid_key public_key = false) .InvalidSignature
  reject_if (Ed25519Dalek.verify_strict public_key message signature = false) .InvalidSignature

theorem verify_eq_ok_iff {public_key : U8Array 32} {message signature : Bytes} :
    verify public_key message signature = .ok () ↔ ∃ array : U8Array 64, signature = array.as_slice ∧
      Ed25519Dalek.is_valid_key public_key = true ∧
      Ed25519Dalek.verify_strict public_key message array = true := by
  simp [verify, U8Array.try_from_eq_some_iff]

/-- A genuine signature verifies under the identity's public key. -/
theorem verify_sign [GenuineEd25519] (identity : Ed25519Identity) (message : Bytes) :
    verify identity.public_key_bytes message (identity.sign message).as_slice = .ok () := by
  rw [verify_eq_ok_iff]
  refine ⟨identity.sign message, rfl, ?_, ?_⟩
  · rw [public_key_bytes, identity.verifying_key_eq]
    exact GenuineEd25519.is_valid_key _
  · rw [public_key_bytes, identity.verifying_key_eq]
    exact GenuineEd25519.verify_strict _ _

end Ed25519Identity

end lys
