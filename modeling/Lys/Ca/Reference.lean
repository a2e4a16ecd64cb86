import Lys.Ca.Authority
import Lys.Reference
import Lys.X690.Der

open rust x690

/-! Concrete crates for one certificate: what the zero identity issues for `agent`, notBefore
and notAfter being 2023-11-14 22:13:20. -/

namespace reference

/-- The instants of `chrono` outside of leap seconds. -/
abbrev Instant := { instant : Int × Nat //
  -8334601228800 ≤ instant.1 ∧ instant.1 ≤ 8210266876799 ∧ instant.2 < 1000000000 }

def instant_of (secs : Int) (nsecs : Nat) : Option Instant :=
  if h : -8334601228800 ≤ secs ∧ secs ≤ 8210266876799 ∧ nsecs < 1000000000 then some ⟨(secs, nsecs), h⟩ else none

theorem instant_of_eq_some_iff {secs : Int} {nsecs : Nat} {instant : Instant} :
    instant_of secs nsecs = some instant ↔ instant.1 = (secs, nsecs) := by
  rw [instant_of]
  split
  next h =>
    rw [Option.some.injEq, Subtype.ext_iff]
    exact eq_comm
  next h =>
    refine ⟨nofun, fun heq => absurd instant.2 ?_⟩
    rw [heq]
    exact h

scoped instance : lys.Chrono where
  DateTime := Instant
  timestamp instant := instant.1.1
  timestamp_subsec_nanos instant := instant.1.2
  from_timestamp := instant_of
  with_nanosecond instant nsecs := instant_of instant.1.1 nsecs
  from_std duration :=
    if duration.as_nanos / 1000000 < 2 ^ 63 then .ok duration.as_nanos
    else .error "Source duration value is out of range for the target type"
  checked_add_signed instant delta :=
    instant_of (instant.1.1 + (instant.1.2 + delta) / 1000000000) ((instant.1.2 + delta) % 1000000000).toNat
  to_string instant := s!"{instant.1.1}.{instant.1.2}"

scoped instance : lys.ExactChrono where
  ext _ _ hsecs hnsecs := Subtype.ext (Prod.ext hsecs hnsecs)
  from_timestamp_timestamp instant :=
    ⟨⟨(instant.1.1, 0), instant.2.1, instant.2.2.1, Nat.zero_lt_succ _⟩, instant_of_eq_some_iff.mpr rfl⟩
  of_from_timestamp _ _ _ h := Prod.mk.inj (instant_of_eq_some_iff.mp h)
  of_with_nanosecond _ _ _ h := Prod.mk.inj (instant_of_eq_some_iff.mp h)
  of_from_std duration delta h := by
    change (if _ then _ else _) = _ at h
    split at h
    · exact (Except.ok.inj h).symm
    · cases h
  of_checked_add_signed instant delta instant' _ h := by
    have hsecs := (Prod.mk.inj (instant_of_eq_some_iff.mp h)).1
    have hnanos : (instant.1.2 : Int) % 1000000000 = instant.1.2 := by
      have := instant.2.2.2
      omega
    change instant'.1.1 = instant.1.1 + ((instant.1.2 : Int) % 1000000000 + delta) / 1000000000
    rw [hnanos, hsecs]

scoped instance : lys.Time where
  OffsetDateTime := Int
  from_unix_timestamp secs :=
    if -377705116800 ≤ secs ∧ secs ≤ 253402300799 then .ok secs
    else .error "timestamp must be in the range -377705116800..=253402300799"
  unix_timestamp secs := secs

scoped instance : lys.ExactTime where
  of_from_unix_timestamp secs instant h := by
    change (if _ then _ else _) = _ at h
    split at h
    · exact (Except.ok.inj h).symm
    · cases h

/-- A name whose components are common names. -/
def name_der (name : lys.DistinguishedName) : Bytes :=
  encode_element SEQUENCE (name.flatMap fun component => encode_element 0x31 (encode_element SEQUENCE
    ([0x06, 0x03, 0x55, 0x04, 0x03] ++ encode_element 0x0c (as_bytes component.2))))

theorem name_der_injective {a b : Str}
    (h : name_der [(lys.DnType.CommonName, a)] = name_der [(lys.DnType.CommonName, b)]) : a = b := by
  simp only [name_der, List.flatMap_cons, List.flatMap_nil, List.append_nil] at h
  have h := encode_element_injective _ (encode_element_injective _ (encode_element_injective _ h))
  exact as_bytes_injective (encode_element_injective _ (List.append_cancel_left h))

/-- The Ed25519 algorithm identifier. -/
def ed25519_algorithm : Bytes := encode_element SEQUENCE ([0x06, 0x03] ++ lys.OID_SIG_ED25519)

/-- The Ed25519 public key of the seed of ones. -/
def one_ed25519_public_key : U8Array 32 :=
  of_hex 32 0x8a88e3dd7409f195fd52db2d3cba5d72ca6709bf1d94121bf3748801b40f6f5c

def subject_key_identifier : lys.X509Extension :=
  ⟨[0x55, 0x1d, 0x0e], false, encode_element 0x04 (to_be_bytes 20 0xfd110d301d2f077de1414b8f99f441b1403fab20)⟩

def basic_constraints : lys.X509Extension := ⟨[0x55, 0x1d, 0x13], true, [0x30, 0x03, 0x01, 0x01, 0x00]⟩

def extension_der (extension : lys.X509Extension) : Bytes :=
  encode_element SEQUENCE (encode_element 0x06 extension.oid ++ (if extension.critical then [0x01, 0x01, 0xff] else []) ++
    encode_element 0x04 extension.value)

def zero_name : lys.DistinguishedName := lys.distinguished_name (hex_lower zero_public_key.as_slice)

def agent_name : lys.DistinguishedName := lys.distinguished_name "agent".toList

/-- The to-be-signed bytes of the certificate. -/
def agent_tbs : Bytes := encode_element SEQUENCE (
  encode_element CONTEXT_0 [0x02, 0x01, 0x02] ++
  encode_element INTEGER (to_be_bytes 20 0x34750f98bd59fcfc946da45aaabe933be154a4b5) ++
  ed25519_algorithm ++
  name_der zero_name ++
  encode_element SEQUENCE (encode_element 0x17 (as_bytes "231114221320Z".toList) ++
    encode_element 0x17 (as_bytes "231114221320Z".toList)) ++
  name_der agent_name ++
  encode_element SEQUENCE (ed25519_algorithm ++ encode_element 0x03 (0x00 :: one_ed25519_public_key.as_slice)) ++
  encode_element 0xa3 (encode_element SEQUENCE (extension_der subject_key_identifier ++ extension_der basic_constraints)))

/-- The certificate up to its 64-byte signature. -/
def agent_front : Bytes :=
  [0x30, 0x82, 0x01, 0x4f] ++ agent_tbs ++ ed25519_algorithm ++ [0x03, 0x41, 0x00]

/-- The certificate as parsed, for a signature. -/
def agent_certificate (signature : Bytes) : lys.X509Certificate where
  tbs_certificate := {
    raw := agent_tbs
    subject := name_der agent_name
    issuer := name_der zero_name
    not_before := 1700000000
    not_after := 1700000000
    extensions := [subject_key_identifier, basic_constraints] }
  signature_algorithm := lys.OID_SIG_ED25519
  signature_value := signature

scoped instance : lys.X509Parser where
  from_der bytes :=
    if agent_front <+: bytes ∧ agent_front.length + 64 ≤ bytes.length then
      .ok (bytes.drop (agent_front.length + 64), agent_certificate ((bytes.drop agent_front.length).take 64))
    else .error "Error(Der(..))"
  oid_from components :=
    match components with
    | [1, 3, 6, 1, 4, 1, 58888, 1] => .ok [0x2b, 0x06, 0x01, 0x04, 0x01, 0x83, 0xcc, 0x08, 0x01]
    | _ => .error "unknown object identifier"
  get_extension_unique tbs oid :=
    match tbs.extensions.filter (·.oid = oid) with
    | [] => .ok none
    | [extension] => .ok (some extension)
    | _ => .error "duplicate extensions"

theorem from_der_front {signature rest : Bytes} (h : signature.length = 64) :
    lys.X509Parser.from_der (agent_front ++ (signature ++ rest)) = .ok (rest, agent_certificate signature) := by
  change (if _ then _ else _) = _
  rw [if_pos ⟨List.prefix_append _ _, by simp [h]⟩, List.drop_left, ← h, List.take_left, ← List.append_assoc,
    ← List.length_append, List.drop_left]

theorem from_der_eq_ok {bytes rest : Bytes} {certificate : lys.X509Certificate}
    (h : lys.X509Parser.from_der bytes = .ok (rest, certificate)) :
    ∃ signature, signature.length = 64 ∧ bytes = agent_front ++ (signature ++ rest) ∧
      certificate = agent_certificate signature := by
  change (if _ then _ else _) = _ at h
  split at h
  next hfront =>
    obtain ⟨⟨back, rfl⟩, hlength⟩ := hfront
    obtain ⟨hrest, hcertificate⟩ := Prod.mk.inj (Except.ok.inj h)
    rw [List.drop_left] at hcertificate
    rw [← List.drop_drop, List.drop_left] at hrest
    refine ⟨back.take 64, ?_, ?_, hcertificate.symm⟩
    · rw [List.length_append] at hlength
      rw [List.length_take]
      omega
    · rw [← hrest, List.take_append_drop]
  next hfront => cases h

scoped instance : lys.FrontX509Parser where
  from_der_append bytes rest certificate extra h := by
    obtain ⟨signature, hlength, rfl, rfl⟩ := from_der_eq_ok h
    rw [List.append_assoc, List.append_assoc, from_der_front hlength]

/-- The PKCS#8 document of the seed of ones. -/
def one_pkcs8 : Bytes :=
  to_be_bytes 16 0x3051020101300506032b657004220420 ++ List.replicate 32 1 ++ [0x81, 0x21, 0x00] ++
    one_ed25519_public_key.as_slice

scoped instance : lys.Ed25519Pkcs8 where
  from_pkcs8_der bytes :=
    if bytes = one_pkcs8 then .ok (U8Array.repeat_byte 32 1) else .error "PKCS#8 ASN.1 error"

/-- A key pair by how it signs, and its document where it has one. -/
structure KeyPair where
  remote : lys.RemoteKeyPair
  pkcs8 : Bytes

/-- A certificate by its subject. The DER of a self-signed one, which nothing reads, is left empty. -/
structure Certificate where
  distinguished_name : lys.DistinguishedName
  der : Bytes

scoped instance : lys.Rcgen where
  KeyPair := KeyPair
  Certificate := Certificate
  from_remote remote := .ok ⟨remote, []⟩
  public_key_raw key := key.remote.public_key
  serialize_der key := key.pkcs8
  new_params names :=
    if names = [] then .ok {
      not_before := (157766400 : Int)
      not_after := (67090118400 : Int)
      distinguished_name := lys.distinguished_name "rcgen self signed cert".toList
      is_ca := .NoCa
      custom_extensions := [] }
    else .error "unknown subject names"
  self_signed params _ := .ok ⟨params.distinguished_name, []⟩
  signed_by params subject_key issuer issuer_key :=
    if params.distinguished_name = agent_name ∧ @Eq Int params.not_before 1700000000 ∧
        @Eq Int params.not_after 1700000000 ∧ params.is_ca = .ExplicitNoCa ∧ params.custom_extensions = [] ∧
        subject_key.remote.public_key = one_ed25519_public_key.as_slice ∧ issuer.distinguished_name = zero_name then
      match issuer_key.remote.sign agent_tbs with
      | .ok signature =>
        if signature.length = 64 then .ok ⟨agent_name, agent_front ++ signature⟩ else .error "unknown signature"
      | .error e => .error e
    else .error "unknown parameters"
  der certificate := certificate.der
  name_der := name_der

scoped instance : lys.GenuineRcgen where
  name_der_injective _ _ := name_der_injective
  from_der_signed_by remote issuer_key issuer_params issuer params subject_key certificate _ hremote hself hsigned := by
    obtain rfl := Except.ok.inj hremote
    obtain rfl := Except.ok.inj hself
    change (if _ then _ else _) = _ at hsigned
    split at hsigned
    next hparams =>
      obtain ⟨hname, hbefore, hafter, -, -, -, hissuer⟩ := hparams
      split at hsigned
      next signature hsignature =>
        split at hsigned
        next hlength =>
          obtain rfl := Except.ok.inj hsigned
          refine ⟨agent_certificate signature, ?_, ?_, ?_, hbefore.symm, hafter.symm, rfl, hsignature⟩
          · have hparse := @from_der_front _ [] hlength
            rwa [List.append_nil] at hparse
          · exact (congrArg name_der hname).symm
          · exact (congrArg name_der hissuer).symm
        next => cases hsigned
      next => cases hsigned
    next => cases hsigned

def zero_authority : lys.CertificateAuthority := ⟨zero_identity⟩

/-- The key pair of the seed of ones. -/
def one_key_pair : lys.Rcgen.KeyPair := show KeyPair from {
  remote := {
    public_key := one_ed25519_public_key.as_slice
    sign message := .ok (signature_of one_ed25519_public_key message).as_slice
    algorithm := .PKCS_ED25519 }
  pkcs8 := one_pkcs8 }

/-- 2023-11-14 22:13:20. -/
def whole_second : lys.DateTime := show Instant from ⟨(1700000000, 0), by decide⟩

/-- Half a second past 2023-11-14 22:13:20. -/
def half_past : lys.DateTime := show Instant from ⟨(1700000000, 500000000), by decide⟩

/-- The certificate of the zero identity for `agent`. -/
def agent_der : Bytes := agent_front ++ (zero_identity.sign agent_tbs).as_slice

end reference
