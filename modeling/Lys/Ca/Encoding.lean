import Lys.Ca.Lifetime

open rust

namespace lys

section Encoding

variable [Ed25519Dalek] [Chrono] [X509Parser]

/-- Two inputs parse to the same to-be-signed bytes and the same signature. -/
def SameSigned (der der' : Bytes) : Prop :=
  ∃ rest certificate rest' certificate', X509Parser.from_der der = .ok (rest, certificate) ∧
    X509Parser.from_der der' = .ok (rest', certificate') ∧
    certificate.tbs_certificate.raw = certificate'.tbs_certificate.raw ∧
    certificate.signature_value = certificate'.signature_value

/-- What an issuer key and an instant accept has one encoding for what is signed. -/
def UniquelyEncoded (issuer_public_key : U8Array 32) (instant : DateTime) : Prop :=
  ∀ der der', verify_certificate_chain_at der issuer_public_key instant = .ok () →
    verify_certificate_chain_at der' issuer_public_key instant = .ok () → SameSigned der der' → der = der'

variable {der extra : Bytes} {issuer_public_key : U8Array 32} {instant : DateTime}

variable [FrontX509Parser]

/-- Bytes behind an accepted certificate are not looked at. -/
theorem verify_certificate_chain_at_append
    (h : verify_certificate_chain_at der issuer_public_key instant = .ok ()) :
    verify_certificate_chain_at (der ++ extra) issuer_public_key instant = .ok () := by
  obtain ⟨rest, certificate, hparse, hsigned, hwindow⟩ := verify_certificate_chain_at_eq_ok_iff.mp h
  exact verify_certificate_chain_at_eq_ok_iff.mpr
    ⟨rest ++ extra, certificate, FrontX509Parser.from_der_append _ _ _ extra hparse, hsigned, hwindow⟩

theorem sameSigned_append (h : verify_certificate_chain_at der issuer_public_key instant = .ok ()) :
    SameSigned der (der ++ extra) := by
  obtain ⟨rest, certificate, hparse, _⟩ := verify_certificate_chain_at_eq_ok_iff.mp h
  exact ⟨rest, certificate, rest ++ extra, certificate, hparse, FrontX509Parser.from_der_append _ _ _ extra hparse,
    rfl, rfl⟩

theorem decode_extension_append (h : verify_certificate_chain_at der issuer_public_key instant = .ok ())
    (oid : List UInt64) : decode_extension (der ++ extra) oid = decode_extension der oid := by
  obtain ⟨rest, certificate, hparse, _⟩ := verify_certificate_chain_at_eq_ok_iff.mp h
  exact decode_extension_congr hparse (FrontX509Parser.from_der_append _ _ _ extra hparse) oid

/-- Accepted certificates have one encoding only where none is accepted: behind every accepted
one, any bytes are accepted with it, with the same signed contents and the same claims read. -/
theorem certificate_uniquely_encoded_iff :
    (∀ issuer_public_key instant, UniquelyEncoded issuer_public_key instant ↔
      ∀ der, verify_certificate_chain_at der issuer_public_key instant ≠ .ok ()) ∧
    ∀ der extra issuer_public_key instant, verify_certificate_chain_at der issuer_public_key instant = .ok () →
      extra ≠ [] → verify_certificate_chain_at (der ++ extra) issuer_public_key instant = .ok () ∧
        der ≠ der ++ extra ∧ SameSigned der (der ++ extra) ∧
        ∀ oid, decode_extension (der ++ extra) oid = decode_extension der oid := by
  refine ⟨fun issuer_public_key instant => ⟨fun hunique der haccepted => ?_, fun hnone der der' haccepted => ?_⟩,
    fun der extra issuer_public_key instant haccepted hextra => ?_⟩
  · have heq := hunique der (der ++ [0x00]) haccepted (verify_certificate_chain_at_append haccepted)
      (sameSigned_append haccepted)
    exact absurd (List.self_eq_append_right.mp heq) (List.cons_ne_nil _ _)
  · exact absurd haccepted (hnone der)
  · refine ⟨verify_certificate_chain_at_append haccepted, fun heq => ?_, sameSigned_append haccepted,
      decode_extension_append haccepted⟩
    exact hextra (List.self_eq_append_right.mp heq)

end Encoding

section

open reference

/-- A zero byte behind a certificate is accepted with it. -/
theorem certificate_accepted_with_trailing_byte :
    verify_certificate_chain_at agent_der zero_public_key whole_second = .ok () ∧
      verify_certificate_chain_at (agent_der ++ [0x00]) zero_public_key whole_second = .ok () ∧
      SameSigned agent_der (agent_der ++ [0x00]) ∧ sha256 agent_der ≠ sha256 (agent_der ++ [0x00]) := by
  have haccepted : verify_certificate_chain_at agent_der zero_public_key whole_second = .ok () := by decide +kernel
  exact ⟨haccepted, verify_certificate_chain_at_append haccepted, sameSigned_append haccepted, by decide +kernel⟩

theorem certificate_uniquely_encoded_iff_agent :
    verify_certificate_chain_at agent_der zero_public_key whole_second = .ok () ∧
      verify_certificate_chain_at (agent_der ++ [0x00]) zero_public_key whole_second = .ok () := by
  have haccepted : verify_certificate_chain_at agent_der zero_public_key whole_second = .ok () := by decide +kernel
  exact ⟨haccepted, (certificate_uniquely_encoded_iff.2 _ [0x00] _ _ haccepted (by decide)).1⟩

end

end lys
