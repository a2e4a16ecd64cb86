import Lys.Ca.Reference

open rust

namespace lys

section Lifetime

variable [Sha2] [Ed25519Dalek] [Ed25519Pkcs8] [Chrono] [Time] [Rcgen]
variable {authority : CertificateAuthority} {generated : Except String Rcgen.KeyPair} {now : DateTime}
variable {subject : Str} {ttl : Duration} {extensions : List CustomExtension} {issued : IssuedCertificate}

/-- What an issuance goes through. -/
theorem issue_certificate_eq_ok (h : authority.issue_certificate generated now subject ttl extensions = .ok issued) :
    ∃ issuer_key issuer_params issuer params subject_key certificate delta expiry,
      Rcgen.from_remote authority.identity_signer = .ok issuer_key ∧
      Rcgen.self_signed issuer_params issuer_key = .ok issuer ∧
      issuer_params.distinguished_name = distinguished_name (hex_lower authority.public_key_bytes.as_slice) ∧
      Rcgen.signed_by params subject_key issuer issuer_key = .ok certificate ∧
      params.distinguished_name = distinguished_name subject ∧
      Time.from_unix_timestamp (Chrono.timestamp now) = .ok params.not_before ∧
      Time.from_unix_timestamp (Chrono.timestamp issued.expires_at) = .ok params.not_after ∧
      Chrono.from_std ttl = .ok delta ∧ Chrono.checked_add_signed now delta = some expiry ∧
      Chrono.with_nanosecond expiry 0 = some issued.expires_at ∧ issued.der_bytes = Rcgen.der certificate := by
  simp only [CertificateAuthority.issue_certificate, CertificateAuthority.issuer_key_pair,
    CertificateAuthority.issuer_certificate, CertificateAuthority.to_offset_date_time, bind_eq_ok_iff,
    reject_if_eq_ok_iff, mapError_eq_ok_iff, ok_or_eq_ok_iff] at h
  obtain ⟨_, _, _, _, issuer_key, hremote, issuer, ⟨issuer_params, _, hself⟩, subject_key, _, delta, hdelta, expiry,
    hexpiry, expires_at, hexpires, params, _, not_before, hbefore, not_after, hafter, certificate, hsigned, hissued⟩ := h
  obtain ⟨hder, rfl, _⟩ := IssuedCertificate.from_der_and_keypair_eq_ok hissued
  exact ⟨issuer_key, _, issuer, _, subject_key, certificate, delta, expiry, hremote, hself, rfl, hsigned, rfl, hbefore,
    hafter, hdelta, hexpiry, hexpires, hder⟩

variable [ExactChrono]

/-- The reported expiry is the whole second of the instant the lifetime ends at. -/
theorem expires_at_of_issue_certificate
    (h : authority.issue_certificate generated now subject ttl extensions = .ok issued) :
    Chrono.timestamp issued.expires_at =
        Chrono.timestamp now + (Chrono.timestamp_subsec_nanos now % 1000000000 + ttl.as_nanos) / 1000000000 ∧
      Chrono.timestamp_subsec_nanos issued.expires_at = 0 := by
  obtain ⟨_, _, _, _, _, _, delta, expiry, _, _, _, _, _, _, _, hdelta, hexpiry, hexpires, _⟩ :=
    issue_certificate_eq_ok h
  obtain ⟨hsecond, hnanos⟩ := ExactChrono.of_with_nanosecond _ _ _ hexpires
  obtain rfl := ExactChrono.of_from_std _ _ hdelta
  rw [hsecond, ExactChrono.of_checked_add_signed _ _ _ (Int.natCast_nonneg _) hexpiry]
  exact ⟨rfl, hnanos⟩

/-- An issuance and its reported expiry are in order exactly when the issuance is at a whole
second or the lifetime reaches the next second. -/
theorem issued_at_le_expires_at_iff (h : authority.issue_certificate generated now subject ttl extensions = .ok issued) :
    now ≤ issued.expires_at ↔ Chrono.timestamp_subsec_nanos now = 0 ∨
      1000000000 ≤ Chrono.timestamp_subsec_nanos now % 1000000000 + ttl.as_nanos := by
  obtain ⟨hsecond, hnanos⟩ := expires_at_of_issue_certificate h
  rw [DateTime.le_iff, hsecond, hnanos]
  omega

variable [X509Parser]

/-- A certificate issued at an instant is accepted from then to its expiry and not longer, and
its expiry is what it encodes. -/
structure ValidForLifetime (authority : CertificateAuthority) (issued_at : DateTime) (issued : IssuedCertificate) :
    Prop where
  accepted_when_issued :
    verify_certificate_chain_at issued.der_bytes authority.public_key_bytes issued_at = .ok ()
  accepted_until_expiry : ∀ instant, issued_at ≤ instant → instant ≤ issued.expires_at →
    verify_certificate_chain_at issued.der_bytes authority.public_key_bytes instant = .ok ()
  rejected_after_expiry : ∀ instant, issued.expires_at < instant →
    verify_certificate_chain_at issued.der_bytes authority.public_key_bytes instant ≠ .ok ()
  expires_at_encoded : ∃ parsed, X509Parser.from_der issued.der_bytes = .ok ([], parsed) ∧
    Chrono.from_timestamp parsed.tbs_certificate.not_after 0 = some issued.expires_at
  issued_at_le_expires_at : issued_at ≤ issued.expires_at

variable [GenuineEd25519] [ExactTime] [GenuineRcgen]

omit [ExactChrono] in
/-- An issued certificate parses to the seconds of its issuance and its expiry and, for another
subject than the authority's own name, is signed by the authority. -/
theorem from_der_of_issue_certificate
    (h : authority.issue_certificate generated now subject ttl extensions = .ok issued)
    (hsubject : subject ≠ hex_lower authority.public_key_bytes.as_slice) :
    ∃ parsed, X509Parser.from_der issued.der_bytes = .ok ([], parsed) ∧
      parsed.tbs_certificate.not_before = Chrono.timestamp now ∧
      parsed.tbs_certificate.not_after = Chrono.timestamp issued.expires_at ∧
      SignedBy parsed authority.public_key_bytes := by
  obtain ⟨issuer_key, issuer_params, issuer, params, subject_key, certificate, _, _, hremote, hself, hissuer, hsigned,
    hname, hbefore, hafter, _, _, _, hder⟩ := issue_certificate_eq_ok h
  obtain ⟨parsed, hparse, hsubject', hissuer', hbefore', hafter', halgorithm, hsignature⟩ :=
    GenuineRcgen.from_der_signed_by _ _ _ _ _ _ _ rfl hremote hself hsigned
  refine ⟨parsed, hder ▸ hparse, ?_, ?_, ?_, halgorithm, authority.identity.sign parsed.tbs_certificate.raw, ?_, ?_, ?_⟩
  · rw [hbefore', ExactTime.of_from_unix_timestamp _ _ hbefore]
  · rw [hafter', ExactTime.of_from_unix_timestamp _ _ hafter]
  · rw [hsubject', hissuer', hname, hissuer]
    exact fun hnames => hsubject (GenuineRcgen.name_der_injective _ _ hnames)
  · exact (Except.ok.inj hsignature).symm
  · rw [CertificateAuthority.public_key_bytes, Ed25519Identity.public_key_bytes, authority.identity.verifying_key_eq]
    exact GenuineEd25519.is_valid_key _
  · rw [CertificateAuthority.public_key_bytes, Ed25519Identity.public_key_bytes, authority.identity.verifying_key_eq]
    exact GenuineEd25519.verify_strict _ _

/-- An issued certificate is accepted from the second of its issuance to its reported expiry. -/
theorem verify_issued_eq_ok_iff (h : authority.issue_certificate generated now subject ttl extensions = .ok issued)
    (hsubject : subject ≠ hex_lower authority.public_key_bytes.as_slice) {instant : DateTime} :
    verify_certificate_chain_at issued.der_bytes authority.public_key_bytes instant = .ok () ↔
      Chrono.timestamp now ≤ Chrono.timestamp instant ∧ instant ≤ issued.expires_at := by
  obtain ⟨parsed, hparse, hbefore, hafter, hsigned⟩ := from_der_of_issue_certificate h hsubject
  obtain ⟨not_before, hnot_before, hbefore_second, hbefore_nanos⟩ := exists_from_timestamp now
  obtain ⟨not_after, hnot_after, hafter_second, hafter_nanos⟩ := exists_from_timestamp issued.expires_at
  rw [ExactChrono.ext not_after issued.expires_at hafter_second
    (hafter_nanos.trans (expires_at_of_issue_certificate h).2.symm)] at hnot_after
  have hstart : not_before ≤ instant ↔ Chrono.timestamp now ≤ Chrono.timestamp instant := by
    rw [DateTime.le_iff, hbefore_second, hbefore_nanos]
    omega
  rw [verify_certificate_chain_at_eq_ok_iff]
  constructor
  · rintro ⟨rest, certificate, hparse', _, hwindow⟩
    obtain ⟨-, rfl⟩ := Prod.mk.inj (Except.ok.inj (hparse.symm.trans hparse'))
    obtain ⟨start, stop, hstart', hstop', hle, hle'⟩ := check_validity_window_eq_ok_iff.mp hwindow
    rw [hbefore, hnot_before] at hstart'
    rw [hafter, hnot_after] at hstop'
    obtain rfl := Option.some.inj hstart'
    obtain rfl := Option.some.inj hstop'
    exact ⟨hstart.mp hle, hle'⟩
  · rintro ⟨hle, hle'⟩
    refine ⟨[], parsed, hparse, hsigned, check_validity_window_eq_ok_iff.mpr
      ⟨not_before, issued.expires_at, ?_, ?_, hstart.mpr hle, hle'⟩⟩
    · rw [hbefore, hnot_before]
    · rw [hafter, hnot_after]

/-- A certificate is valid for the lifetime it was issued for exactly when it was issued at a
whole second or its lifetime reaches the next second. -/
theorem certificate_valid_for_lifetime_iff
    (h : authority.issue_certificate generated now subject ttl extensions = .ok issued)
    (hsubject : subject ≠ hex_lower authority.public_key_bytes.as_slice) :
    ValidForLifetime authority now issued ↔ Chrono.timestamp_subsec_nanos now = 0 ∨
      1000000000 ≤ Chrono.timestamp_subsec_nanos now % 1000000000 + ttl.as_nanos := by
  rw [← issued_at_le_expires_at_iff h]
  constructor
  · exact fun hvalid => hvalid.issued_at_le_expires_at
  · intro hle
    have htimestamp : Chrono.timestamp now ≤ Chrono.timestamp now := Int.le_refl _
    refine ⟨?_, fun instant hfrom huntil => ?_, fun instant hafter haccepted => ?_, ?_, hle⟩
    · exact (verify_issued_eq_ok_iff h hsubject).mpr ⟨htimestamp, hle⟩
    · refine (verify_issued_eq_ok_iff h hsubject).mpr ⟨?_, huntil⟩
      rw [DateTime.le_iff] at hfrom
      omega
    · exact DateTime.not_lt.mpr ((verify_issued_eq_ok_iff h hsubject).mp haccepted).2 hafter
    · obtain ⟨parsed, hparse, _, hnot_after, _⟩ := from_der_of_issue_certificate h hsubject
      obtain ⟨second, hfrom, hsecond, hnanos⟩ := exists_from_timestamp issued.expires_at
      refine ⟨parsed, hparse, ?_⟩
      rw [hnot_after, hfrom, ExactChrono.ext second issued.expires_at hsecond
        (hnanos.trans (expires_at_of_issue_certificate h).2.symm)]

end Lifetime

section

open reference

def tenth_of_a_second : Duration := ⟨0, 100000000, by decide⟩

theorem issue_certificate_agent : (zero_authority.issue_certificate (.ok one_key_pair) half_past "agent".toList
    tenth_of_a_second []).isOk = true := by decide +kernel

/-- A certificate issued for a tenth of a second has expired when it is issued. -/
theorem certificate_expired_when_issued : ∃ issued, zero_authority.issue_certificate (.ok one_key_pair) half_past
      "agent".toList tenth_of_a_second [] = .ok issued ∧ issued.expires_at < half_past ∧
    verify_certificate_chain_at issued.der_bytes zero_authority.public_key_bytes half_past ≠ .ok () := by
  obtain ⟨issued, hissued⟩ := isOk_iff_exists.mp issue_certificate_agent
  have hsubject : "agent".toList ≠ hex_lower zero_authority.public_key_bytes.as_slice := by decide +kernel
  have hexpired : issued.expires_at < half_past := by
    by_contra hle
    rw [DateTime.not_lt, issued_at_le_expires_at_iff hissued] at hle
    exact absurd hle (by decide)
  refine ⟨issued, hissued, hexpired, fun haccepted => ?_⟩
  exact DateTime.not_lt.mpr ((verify_issued_eq_ok_iff hissued hsubject).mp haccepted).2 hexpired

theorem certificate_valid_for_lifetime_iff_agent : ∃ issued, zero_authority.issue_certificate (.ok one_key_pair)
      half_past "agent".toList tenth_of_a_second [] = .ok issued ∧
    ¬ ValidForLifetime zero_authority half_past issued := by
  obtain ⟨issued, hissued⟩ := isOk_iff_exists.mp issue_certificate_agent
  refine ⟨issued, hissued, fun hvalid => ?_⟩
  exact absurd ((certificate_valid_for_lifetime_iff hissued (by decide +kernel)).mp hvalid) (by decide)

end

end lys
