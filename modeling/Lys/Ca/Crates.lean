import Lys.Crates
import Lys.RustStd.Time

open rust

namespace lys

/-- The `chrono` crate's `DateTime<Utc>`. -/
class Chrono where
  DateTime : Type
  /-- Whole seconds since the Unix epoch. -/
  timestamp : DateTime → Int
  /-- Nanoseconds past the whole second, from `10 ^ 9` on within a leap second. -/
  timestamp_subsec_nanos : DateTime → Nat
  /-- `DateTime::<Utc>::from_timestamp(secs, nsecs)` -/
  from_timestamp : Int → Nat → Option DateTime
  with_nanosecond : DateTime → Nat → Option DateTime
  /-- `chrono::Duration::from_std`, in nanoseconds -/
  from_std : Duration → Except String Int
  checked_add_signed : DateTime → Int → Option DateTime
  to_string : DateTime → String

export Chrono (DateTime)

section Instants

variable [Chrono]

/-- Instants are ordered by their second, then by the nanosecond in it. -/
instance : LT DateTime :=
  ⟨fun a b => Chrono.timestamp a < Chrono.timestamp b ∨
    Chrono.timestamp a = Chrono.timestamp b ∧ Chrono.timestamp_subsec_nanos a < Chrono.timestamp_subsec_nanos b⟩

instance : LE DateTime :=
  ⟨fun a b => Chrono.timestamp a < Chrono.timestamp b ∨
    Chrono.timestamp a = Chrono.timestamp b ∧ Chrono.timestamp_subsec_nanos a ≤ Chrono.timestamp_subsec_nanos b⟩

theorem DateTime.lt_iff {a b : DateTime} : a < b ↔ Chrono.timestamp a < Chrono.timestamp b ∨
    Chrono.timestamp a = Chrono.timestamp b ∧
      Chrono.timestamp_subsec_nanos a < Chrono.timestamp_subsec_nanos b := Iff.rfl

theorem DateTime.le_iff {a b : DateTime} : a ≤ b ↔ Chrono.timestamp a < Chrono.timestamp b ∨
    Chrono.timestamp a = Chrono.timestamp b ∧
      Chrono.timestamp_subsec_nanos a ≤ Chrono.timestamp_subsec_nanos b := Iff.rfl

instance (a b : DateTime) : Decidable (a < b) := decidable_of_iff _ DateTime.lt_iff.symm

theorem DateTime.not_lt {a b : DateTime} : ¬ a < b ↔ b ≤ a := by
  rw [DateTime.lt_iff, DateTime.le_iff]
  omega

/-- `chrono` computes with instants exactly. Every instant's whole second is an instant, and an
addition leaves the seconds to a carry of the nanoseconds, also within a leap second. -/
class ExactChrono : Prop where
  ext : ∀ a b : DateTime, Chrono.timestamp a = Chrono.timestamp b →
    Chrono.timestamp_subsec_nanos a = Chrono.timestamp_subsec_nanos b → a = b
  from_timestamp_timestamp : ∀ instant : DateTime,
    ∃ second, Chrono.from_timestamp (Chrono.timestamp instant) 0 = some second
  of_from_timestamp : ∀ secs nsecs instant, Chrono.from_timestamp secs nsecs = some instant →
    Chrono.timestamp instant = secs ∧ Chrono.timestamp_subsec_nanos instant = nsecs
  of_with_nanosecond : ∀ instant nsecs instant', Chrono.with_nanosecond instant nsecs = some instant' →
    Chrono.timestamp instant' = Chrono.timestamp instant ∧ Chrono.timestamp_subsec_nanos instant' = nsecs
  of_from_std : ∀ duration delta, Chrono.from_std duration = .ok delta → delta = duration.as_nanos
  of_checked_add_signed : ∀ instant delta instant', 0 ≤ delta →
    Chrono.checked_add_signed instant delta = some instant' → Chrono.timestamp instant' =
      Chrono.timestamp instant + (Chrono.timestamp_subsec_nanos instant % 1000000000 + delta) / 1000000000

/-- The second of an instant, as `chrono` makes it from the timestamp. -/
theorem exists_from_timestamp [ExactChrono] (instant : DateTime) : ∃ second,
    Chrono.from_timestamp (Chrono.timestamp instant) 0 = some second ∧
      Chrono.timestamp second = Chrono.timestamp instant ∧ Chrono.timestamp_subsec_nanos second = 0 := by
  obtain ⟨second, hsecond⟩ := ExactChrono.from_timestamp_timestamp instant
  exact ⟨second, hsecond, ExactChrono.of_from_timestamp _ _ _ hsecond⟩

end Instants

/-- The `time` crate's `OffsetDateTime`. -/
class Time where
  OffsetDateTime : Type
  from_unix_timestamp : Int → Except String OffsetDateTime
  unix_timestamp : OffsetDateTime → Int

/-- An `OffsetDateTime` keeps the second it is made from. -/
class ExactTime [Time] : Prop where
  of_from_unix_timestamp : ∀ secs instant, Time.from_unix_timestamp secs = .ok instant →
    Time.unix_timestamp instant = secs

inductive DnType where
  | CommonName
deriving DecidableEq

/-- The components of a distinguished name in their order. -/
abbrev DistinguishedName := List (DnType × Str)

inductive BasicConstraints where
  | Unconstrained
deriving DecidableEq

inductive IsCa where
  | NoCa
  | ExplicitNoCa
  | Ca (constraints : BasicConstraints)
deriving DecidableEq

inductive SignatureAlgorithm where
  | PKCS_ED25519
deriving DecidableEq

structure CustomExtension where
  oid : List UInt64
  critical : Bool
  content : Bytes
deriving DecidableEq

/-- What `rcgen` asks of a key it does not hold. -/
structure RemoteKeyPair where
  public_key : Bytes
  sign : Bytes → Except String Bytes
  algorithm : SignatureAlgorithm

/-- The parameters of a certificate that the issuance sets. -/
structure CertificateParams [Time] where
  not_before : Time.OffsetDateTime
  not_after : Time.OffsetDateTime
  distinguished_name : DistinguishedName
  is_ca : IsCa
  custom_extensions : List CustomExtension

/-- The `rcgen` crate. Errors carry their texts. -/
class Rcgen [Time] where
  KeyPair : Type
  Certificate : Type
  from_remote : RemoteKeyPair → Except String KeyPair
  public_key_raw : KeyPair → Bytes
  /-- `KeyPair::serialize_der()`, the PKCS#8 document of the key -/
  serialize_der : KeyPair → Bytes
  /-- `CertificateParams::new(subject_alt_names)` -/
  new_params : List Str → Except String CertificateParams
  self_signed : CertificateParams → KeyPair → Except String Certificate
  /-- `params.signed_by(subject_key, issuer, issuer_key)` -/
  signed_by : CertificateParams → KeyPair → Certificate → KeyPair → Except String Certificate
  der : Certificate → Bytes
  /-- The DER that a distinguished name is written as. -/
  name_der : DistinguishedName → Bytes

/-- `SigningKey::from_pkcs8_der` of the `ed25519-dalek` crate, to the seed of the key. -/
class Ed25519Pkcs8 where
  from_pkcs8_der : Bytes → Except String (U8Array 32)

structure X509Extension where
  oid : Bytes
  critical : Bool
  value : Bytes
deriving DecidableEq

/-- The to-be-signed part of a certificate; `raw` is the DER it was parsed from. -/
structure TbsCertificate where
  raw : Bytes
  subject : Bytes
  issuer : Bytes
  not_before : Int
  not_after : Int
  extensions : List X509Extension
deriving DecidableEq

structure X509Certificate where
  tbs_certificate : TbsCertificate
  /-- The object identifier of the outer signature algorithm, as its DER has it. -/
  signature_algorithm : Bytes
  signature_value : Bytes
deriving DecidableEq

/-- The `x509-parser` crate. Errors carry their texts. -/
class X509Parser where
  /-- `X509Certificate::from_der`, to the remaining input and the certificate -/
  from_der : Bytes → Except String (Bytes × X509Certificate)
  /-- `Oid::from` of the components -/
  oid_from : List UInt64 → Except String Bytes
  get_extension_unique : TbsCertificate → Bytes → Except String (Option X509Extension)

/-- `from_der` parses one certificate from the front of its input and returns the rest. -/
class FrontX509Parser [X509Parser] : Prop where
  from_der_append : ∀ bytes rest certificate extra, X509Parser.from_der bytes = .ok (rest, certificate) →
    X509Parser.from_der (bytes ++ extra) = .ok (rest ++ extra, certificate)

/-- `1.3.101.112` -/
def OID_SIG_ED25519 : Bytes := [0x2b, 0x65, 0x70]

/-- `x509-parser` reads what `rcgen` issues under an Ed25519 key: the names of the parameters,
the whole seconds of the validity and the issuer's signature over the to-be-signed bytes. -/
class GenuineRcgen [Time] [Rcgen] [X509Parser] : Prop where
  name_der_injective : ∀ a b, Rcgen.name_der [(.CommonName, a)] = Rcgen.name_der [(.CommonName, b)] → a = b
  from_der_signed_by : ∀ remote issuer_key issuer_params issuer params subject_key certificate,
    remote.algorithm = .PKCS_ED25519 → Rcgen.from_remote remote = .ok issuer_key →
    Rcgen.self_signed issuer_params issuer_key = .ok issuer →
    Rcgen.signed_by params subject_key issuer issuer_key = .ok certificate →
    ∃ parsed, X509Parser.from_der (Rcgen.der certificate) = .ok ([], parsed) ∧
      parsed.tbs_certificate.subject = Rcgen.name_der params.distinguished_name ∧
      parsed.tbs_certificate.issuer = Rcgen.name_der issuer_params.distinguished_name ∧
      parsed.tbs_certificate.not_before = Time.unix_timestamp params.not_before ∧
      parsed.tbs_certificate.not_after = Time.unix_timestamp params.not_after ∧
      parsed.signature_algorithm = OID_SIG_ED25519 ∧
      remote.sign parsed.tbs_certificate.raw = .ok parsed.signature_value

end lys
