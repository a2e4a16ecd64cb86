import Lys.RustStd.Result

namespace lys

/-- Errors returned from the trust primitives. -/
inductive TrustError where
  | CertificateGeneration (reason : String)
  | CertificateParsing (reason : String)
  | CertificateVerification (reason : String)
  | CertificateRevocation (reason : String)
  | MerkleTree (reason : String)
  | Seal (reason : String)
  | UnsealFailed
  | AttestationFailed
  | KeyManagement (reason : String)
  | Signing (reason : String)
  | InvalidSignature
  | CheckpointEncoding (reason : String)
  | CheckpointParsing (reason : String)
  | VerifierKey (reason : String)
  | NoteVerification
  | LogArtifactEncoding (reason : String)
  | LogArtifactVerification
deriving DecidableEq

/-- `Display` of an error; other errors quote it as their cause. -/
def TrustError.to_string : TrustError → String
  | .CertificateGeneration reason => s!"certificate generation failed: {reason}"
  | .CertificateParsing reason => s!"certificate parsing failed: {reason}"
  | .CertificateVerification reason => s!"certificate verification failed: {reason}"
  | .CertificateRevocation reason => s!"certificate revocation failed: {reason}"
  | .MerkleTree reason => s!"merkle tree operation failed: {reason}"
  | .Seal reason => s!"seal failed: {reason}"
  | .UnsealFailed => "unseal failed"
  | .AttestationFailed => "attestation verification failed"
  | .KeyManagement reason => s!"key management failed: {reason}"
  | .Signing reason => s!"signing failed: {reason}"
  | .InvalidSignature => "invalid signature"
  | .CheckpointEncoding reason => s!"checkpoint encoding failed: {reason}"
  | .CheckpointParsing reason => s!"checkpoint parsing failed: {reason}"
  | .VerifierKey reason => s!"invalid note verifier key: {reason}"
  | .NoteVerification => "note verification failed"
  | .LogArtifactEncoding reason => s!"log artifact encoding failed: {reason}"
  | .LogArtifactVerification => "log artifact verification failed"

abbrev TrustResult (α : Type) := Except TrustError α

end lys
