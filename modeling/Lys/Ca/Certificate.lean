import Lys.Ca.Crates
import Lys.Keys.Identity
import Lys.RustStd.Str

open rust

namespace lys

variable [Sha2] [Ed25519Dalek] [Ed25519Pkcs8] [Chrono] [Time] [Rcgen]

/-- A certificate issued by an authority. The keys are one pair and the fingerprint is that of
the certificate. -/
structure IssuedCertificate where
  der_bytes : Bytes
  subject_signing_key : U8Array 32
  subject_verifying_key : U8Array 32
  fingerprint : U8Array 32
  expires_at : DateTime
  issuer_public_key : U8Array 32
  subject_verifying_key_eq : subject_verifying_key = Ed25519Dalek.verifying_key subject_signing_key
  fingerprint_eq : fingerprint = sha256 der_bytes

namespace IssuedCertificate

def from_der_and_keypair (der_bytes : Bytes) (subject_keypair : Rcgen.KeyPair) (expires_at : DateTime)
    (issuer_public_key : U8Array 32) : TrustResult IssuedCertificate := do
  let raw_public := Rcgen.public_key_raw subject_keypair
  reject_if (raw_public.length ≠ 32)
    (.CertificateGeneration s!"subject public key must be 32 bytes for Ed25519, got {raw_public.length}")
  let subject_signing_key ← (Ed25519Pkcs8.from_pkcs8_der (Rcgen.serialize_der subject_keypair)).mapError fun e =>
    .CertificateGeneration s!"failed to load subject signing key from PKCS#8: {e}"
  reject_if ((Ed25519Dalek.verifying_key subject_signing_key).as_slice ≠ raw_public)
    (.CertificateGeneration "subject keypair public and private halves do not match")
  return {
    der_bytes
    subject_signing_key
    subject_verifying_key := Ed25519Dalek.verifying_key subject_signing_key
    fingerprint := sha256 der_bytes
    expires_at
    issuer_public_key
    subject_verifying_key_eq := (Ed25519Identity.from_seed subject_signing_key).verifying_key_eq
    fingerprint_eq := rfl
  }

/-- What a certificate is made of is what it holds. -/
theorem from_der_and_keypair_eq_ok {der_bytes : Bytes} {subject_keypair : Rcgen.KeyPair}
    {expires_at : DateTime} {issuer_public_key : U8Array 32} {issued : IssuedCertificate}
    (h : from_der_and_keypair der_bytes subject_keypair expires_at issuer_public_key = .ok issued) :
    issued.der_bytes = der_bytes ∧ issued.expires_at = expires_at ∧ issued.issuer_public_key = issuer_public_key ∧
      issued.subject_verifying_key.as_slice = Rcgen.public_key_raw subject_keypair := by
  simp only [from_der_and_keypair, bind_eq_ok_iff, reject_if_eq_ok_iff, mapError_eq_ok_iff, pure_eq_ok_iff] at h
  obtain ⟨_, _, seed, _, _, hmatch, rfl⟩ := h
  exact ⟨rfl, rfl, rfl, not_not.mp hmatch⟩

end IssuedCertificate

end lys
