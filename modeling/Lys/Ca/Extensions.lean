import Lys.Ca.Crates
import Lys.Error

open rust

namespace lys

variable [X509Parser]

/-- The parser's text is the `Debug` form of its error. -/
def parse_certificate (cert_der : Bytes) : TrustResult (Bytes × X509Certificate) :=
  (X509Parser.from_der cert_der).mapError fun e => .CertificateParsing s!"failed to parse certificate DER: {e}"

/-- The value of the one extension under an OID. -/
def decode_extension (cert_der : Bytes) (oid : List UInt64) : TrustResult (Option Bytes) := do
  let (_, certificate) ← parse_certificate cert_der
  let target ← (X509Parser.oid_from oid).mapError fun _ =>
    .CertificateParsing "extension lookup OID is not a well-formed object identifier"
  match X509Parser.get_extension_unique certificate.tbs_certificate target with
  | .ok (some extension) => return some extension.value
  | .ok none => return none
  | .error e => .error (.CertificateParsing s!"duplicate or malformed extension for OID lookup: {e}")

@[simp] theorem parse_certificate_eq_ok_iff {cert_der : Bytes} {parsed : Bytes × X509Certificate} :
    parse_certificate cert_der = .ok parsed ↔ X509Parser.from_der cert_der = .ok parsed := by
  rw [parse_certificate, mapError_eq_ok_iff]

/-- The extension read is a function of the parsed certificate alone. -/
theorem decode_extension_congr {der der' rest rest' : Bytes} {certificate : X509Certificate}
    (h : X509Parser.from_der der = .ok (rest, certificate)) (h' : X509Parser.from_der der' = .ok (rest', certificate))
    (oid : List UInt64) : decode_extension der' oid = decode_extension der oid := by
  rw [← parse_certificate_eq_ok_iff] at h h'
  simp only [decode_extension, h, h', ok_bind]

end lys
