import Lys.Ca.Certificate
import Lys.Ca.Extensions
import Lys.Keys.Identity
import Lys.RustStd.Hex

open rust

namespace lys

section Verification

variable [Chrono]

def datetime_from_asn1_timestamp (timestamp : Int) (field : String) : TrustResult DateTime :=
  ok_or (Chrono.from_timestamp timestamp 0)
    (.CertificateParsing s!"certificate {field} timestamp {timestamp} is outside the representable date range")

/-- Both ends of the window are inside it. -/
def check_validity_window (certificate : X509Certificate) (instant : DateTime) : TrustResult Unit := do
  let not_before ← datetime_from_asn1_timestamp certificate.tbs_certificate.not_before "notBefore"
  let not_after ← datetime_from_asn1_timestamp certificate.tbs_certificate.not_after "notAfter"
  reject_if (instant < not_before) (.CertificateVerification
    s!"certificate not yet valid: notBefore is {Chrono.to_string not_before}, checked at {Chrono.to_string instant}")
  reject_if (not_after < instant) (.CertificateVerification
    s!"certificate expired: notAfter was {Chrono.to_string not_after}, checked at {Chrono.to_string instant}")

theorem check_validity_window_eq_ok_iff {certificate : X509Certificate} {instant : DateTime} :
    check_validity_window certificate instant = .ok () ↔ ∃ not_before not_after,
      Chrono.from_timestamp certificate.tbs_certificate.not_before 0 = some not_before ∧
      Chrono.from_timestamp certificate.tbs_certificate.not_after 0 = some not_after ∧
      not_before ≤ instant ∧ instant ≤ not_after := by
  simp [check_validity_window, datetime_from_asn1_timestamp, DateTime.not_lt]

variable [Ed25519Dalek] [X509Parser]

/-- The signature of the issuer and the validity window at an instant. -/
def verify_certificate_chain_at (cert_der : Bytes) (issuer_public_key : U8Array 32) (instant : DateTime) :
    TrustResult Unit := do
  let (_, certificate) ← parse_certificate cert_der
  reject_if (certificate.tbs_certificate.subject = certificate.tbs_certificate.issuer)
    (.CertificateVerification "self-signed certificate rejected (issuer equals subject)")
  reject_if (certificate.signature_algorithm ≠ OID_SIG_ED25519)
    (.CertificateVerification "certificate signature algorithm is not Ed25519")
  let tbs := certificate.tbs_certificate.raw
  let signature_bytes := certificate.signature_value
  let signature ← ok_or (U8Array.try_from 64 signature_bytes) (.CertificateVerification
    s!"certificate signature must be 64 bytes for Ed25519, got {signature_bytes.length}")
  reject_if (Ed25519Dalek.is_valid_key issuer_public_key = false)
    (.CertificateVerification "issuer public key is not a valid Ed25519 point")
  reject_if (Ed25519Dalek.verify_strict issuer_public_key tbs signature = false)
    (.CertificateVerification "certificate signature did not verify against the issuer public key")
  check_validity_window certificate instant

/-- A certificate's names differ and the issuer signed it. -/
def SignedBy (certificate : X509Certificate) (issuer_public_key : U8Array 32) : Prop :=
  certificate.tbs_certificate.subject ≠ certificate.tbs_certificate.issuer ∧
    certificate.signature_algorithm = OID_SIG_ED25519 ∧
    ∃ signature : U8Array 64, certificate.signature_value = signature.as_slice ∧
      Ed25519Dalek.is_valid_key issuer_public_key = true ∧
      Ed25519Dalek.verify_strict issuer_public_key certificate.tbs_certificate.raw signature = true

/-- A certificate is accepted by what its front parses to. -/
theorem verify_certificate_chain_at_eq_ok_iff {cert_der : Bytes} {issuer_public_key : U8Array 32}
    {instant : DateTime} : verify_certificate_chain_at cert_der issuer_public_key instant = .ok () ↔
      ∃ rest certificate, X509Parser.from_der cert_der = .ok (rest, certificate) ∧
        SignedBy certificate issuer_public_key ∧ check_validity_window certificate instant = .ok () := by
  simp only [verify_certificate_chain_at, SignedBy, bind_eq_ok_iff, parse_certificate_eq_ok_iff, reject_if_eq_ok_iff,
    ok_or_eq_ok_iff, U8Array.try_from_eq_some_iff, Prod.exists, exists_const, not_not, Bool.not_eq_false]
  constructor
  · rintro ⟨rest, certificate, hparse, hnames, halgorithm, signature, hsignature, hkey, hverify, hwindow⟩
    exact ⟨rest, certificate, hparse, ⟨hnames, halgorithm, signature, hsignature, hkey, hverify⟩, hwindow⟩
  · rintro ⟨rest, certificate, hparse, ⟨hnames, halgorithm, signature, hsignature, hkey, hverify⟩, hwindow⟩
    exact ⟨rest, certificate, hparse, hnames, halgorithm, signature, hsignature, hkey, hverify, hwindow⟩

end Verification

/-- Issues certificates signed by an Ed25519 root identity. -/
structure CertificateAuthority [Ed25519Dalek] where
  identity : Ed25519Identity

/-- A name of one common-name component. -/
def distinguished_name (common_name : Str) : DistinguishedName := [(.CommonName, common_name)]

namespace CertificateAuthority

section Issuance

variable [Ed25519Dalek]

def public_key_bytes (authority : CertificateAuthority) : U8Array 32 := authority.identity.public_key_bytes

/-- The identity as a key that `rcgen` signs with and does not see. -/
def identity_signer (authority : CertificateAuthority) : RemoteKeyPair where
  public_key := authority.public_key_bytes.as_slice
  sign msg := .ok (authority.identity.sign msg).as_slice
  algorithm := .PKCS_ED25519

variable [Time] [Rcgen]

def issuer_key_pair (authority : CertificateAuthority) : TrustResult Rcgen.KeyPair :=
  (Rcgen.from_remote authority.identity_signer).mapError fun e =>
    .CertificateGeneration s!"failed to construct issuer key from identity: {e}"

/-- The self-signed certificate that an issued one takes its issuer name from. -/
def issuer_certificate (authority : CertificateAuthority) (issuer_key : Rcgen.KeyPair) :
    TrustResult Rcgen.Certificate := do
  let params ← (Rcgen.new_params []).mapError fun e =>
    .CertificateGeneration s!"failed to build issuer parameters: {e}"
  let common_name := hex_lower authority.public_key_bytes.as_slice
  let params := { params with
    distinguished_name := distinguished_name common_name
    is_ca := .Ca .Unconstrained }
  (Rcgen.self_signed params issuer_key).mapError fun e =>
    .CertificateGeneration s!"failed to build issuer certificate: {e}"

variable [Chrono]

def to_offset_date_time (instant : DateTime) : TrustResult Time.OffsetDateTime :=
  (Time.from_unix_timestamp (Chrono.timestamp instant)).mapError fun e =>
    .CertificateGeneration s!"certificate validity instant is out of range: {e}"

variable [Sha2] [Ed25519Pkcs8]

/-- Issues a certificate; `generated` is what the generation of the subject's key pair returns
and `now` what the clock reads. -/
def issue_certificate (authority : CertificateAuthority) (generated : Except String Rcgen.KeyPair) (now : DateTime)
    (subject : Str) (ttl : Duration) (extensions : List CustomExtension) : TrustResult IssuedCertificate := do
  reject_if (trim subject = []) (.CertificateGeneration "certificate subject must not be empty")
  reject_if (ttl.is_zero = true) (.CertificateGeneration "certificate TTL must be positive")
  let issuer_key ← authority.issuer_key_pair
  let issuer_cert ← authority.issuer_certificate issuer_key
  let subject_key ← generated.mapError fun e =>
    .CertificateGeneration s!"failed to generate Ed25519 subject keypair: {e}"
  let issued_at := now
  let ttl ← (Chrono.from_std ttl).mapError fun e =>
    .CertificateGeneration s!"certificate TTL is out of representable range: {e}"
  let expires_at ← ok_or (Chrono.checked_add_signed issued_at ttl)
    (.CertificateGeneration "certificate expiry overflowed the supported date range")
  -- The reported expiry is cut to the whole second that `notAfter` holds.
  let expires_at ← ok_or (Chrono.with_nanosecond expires_at 0)
    (.CertificateGeneration "certificate expiry could not be truncated to whole seconds")
  let params ← (Rcgen.new_params []).mapError fun e =>
    .CertificateGeneration s!"failed to build certificate parameters: {e}"
  let not_before ← to_offset_date_time issued_at
  let not_after ← to_offset_date_time expires_at
  let params := { params with
    distinguished_name := distinguished_name subject
    is_ca := .ExplicitNoCa
    not_before
    not_after
    custom_extensions := extensions }
  let certificate ← (Rcgen.signed_by params subject_key issuer_cert issuer_key).mapError fun e =>
    .CertificateGeneration s!"failed to sign certificate: {e}"
  IssuedCertificate.from_der_and_keypair (Rcgen.der certificate) subject_key expires_at
    authority.identity.public_key_bytes

end Issuance

end CertificateAuthority

end lys
