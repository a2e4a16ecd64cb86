import Lys.Crates
import Lys.Error
import Lys.RustStd.Str
import Lys.Rfc8949.Head

open rust

namespace lys

/-- The protected content type, the domain discriminator of the artifact. -/
def CONTENT_TYPE : Str := "application/vnd.lys.attestation.v2+cbor".toList

/-- Input cap of `decode_fields`. -/
def MAX_ARTIFACT_LEN : Nat := 1024

def COSE_SIGN1_TAG : UInt64 := 18

def MAJOR_UNSIGNED : UInt8 := 0
def MAJOR_NEGATIVE : UInt8 := 1
def MAJOR_BYTES : UInt8 := 2
def MAJOR_TEXT : UInt8 := 3
def MAJOR_ARRAY : UInt8 := 4
def MAJOR_MAP : UInt8 := 5
def MAJOR_TAG : UInt8 := 6

def HEADER_LABEL_ALG : UInt64 := 1
def HEADER_LABEL_CONTENT_TYPE : UInt64 := 3
def HEADER_LABEL_KID : UInt64 := 4
def ALG_EDDSA : Int := -8

def CLAIM_KEY_PAYLOAD_HASH : UInt64 := 1
def CLAIM_KEY_TIMESTAMP : UInt64 := 2

/-- `i64::unsigned_abs`. -/
def unsigned_abs (value : Int64) : UInt64 := UInt64.ofNat value.toInt.natAbs

/-- `i64::try_from` of a wider integer. -/
def i64_try_from (n : Int) : Option Int64 :=
  if -2 ^ 63 ≤ n ∧ n < 2 ^ 63 then some (Int64.ofInt n) else none

@[simp] theorem i64_try_from_toInt (value : Int64) : i64_try_from value.toInt = some value := by
  have hlo := value.le_toInt
  have hhi := value.toInt_lt
  rw [i64_try_from, if_pos ⟨hlo, hhi⟩, Int64.ofInt_toInt]

/-- The shortest-form head of a major type and its value. -/
def write_head (major : UInt8) (value : UInt64) : Bytes :=
  let major_bits := major <<< 5
  -- the arms are `u8::try_from`, `u16::try_from` and `u32::try_from` succeeding
  if value ≤ 0xff then
    if value < 24 then [major_bits ||| value.toUInt8] else [major_bits ||| 24, value.toUInt8]
  else if value ≤ 0xffff then (major_bits ||| 25) :: to_be_bytes 2 value.toNat
  else if value ≤ 0xffffffff then (major_bits ||| 26) :: to_be_bytes 4 value.toNat
  else (major_bits ||| 27) :: to_be_bytes 8 value.toNat

def write_i64 (value : Int64) : Bytes :=
  let (major, magnitude) :=
    if value ≥ 0 then (MAJOR_UNSIGNED, unsigned_abs value) else (MAJOR_NEGATIVE, unsigned_abs value - 1)
  write_head major magnitude

/-- The protected header map. -/
def protected_bytes (signer_public_key : U8Array 32) : Bytes :=
  write_head MAJOR_MAP 3 ++ write_head MAJOR_UNSIGNED HEADER_LABEL_ALG ++ write_i64 (-8) ++
    write_head MAJOR_UNSIGNED HEADER_LABEL_CONTENT_TYPE ++
    write_head MAJOR_TEXT (UInt64.ofNat (as_bytes CONTENT_TYPE).length) ++ as_bytes CONTENT_TYPE ++
    write_head MAJOR_UNSIGNED HEADER_LABEL_KID ++
    write_head MAJOR_BYTES (UInt64.ofNat signer_public_key.as_slice.length) ++ signer_public_key.as_slice

/-- The claims payload map. -/
def claims_bytes (payload_hash : U8Array 32) (timestamp : Int64) : Bytes :=
  write_head MAJOR_MAP 2 ++ write_head MAJOR_UNSIGNED CLAIM_KEY_PAYLOAD_HASH ++
    write_head MAJOR_BYTES (UInt64.ofNat payload_hash.as_slice.length) ++ payload_hash.as_slice ++
    write_head MAJOR_UNSIGNED CLAIM_KEY_TIMESTAMP ++ write_i64 timestamp

/-- The `Sig_structure` that is signed, with empty `external_aad`. -/
def sig_structure_bytes (protectedPart claims : Bytes) : Bytes :=
  write_head MAJOR_ARRAY 4 ++ write_head MAJOR_TEXT (UInt64.ofNat (as_bytes "Signature1".toList).length) ++
    as_bytes "Signature1".toList ++ write_head MAJOR_BYTES (UInt64.ofNat protectedPart.length) ++ protectedPart ++
    write_head MAJOR_BYTES 0 ++ write_head MAJOR_BYTES (UInt64.ofNat claims.length) ++ claims

/-- The complete tagged artifact. -/
def artifact_bytes (signer_public_key payload_hash : U8Array 32) (timestamp : Int64)
    (signature : U8Array 64) : Bytes :=
  let protectedPart := protected_bytes signer_public_key
  let claims := claims_bytes payload_hash timestamp
  write_head MAJOR_TAG COSE_SIGN1_TAG ++ write_head MAJOR_ARRAY 4 ++
    write_head MAJOR_BYTES (UInt64.ofNat protectedPart.length) ++ protectedPart ++ write_head MAJOR_MAP 0 ++
    write_head MAJOR_BYTES (UInt64.ofNat claims.length) ++ claims ++
    write_head MAJOR_BYTES (UInt64.ofNat signature.as_slice.length) ++ signature.as_slice

/-- The fields of a structurally valid artifact. -/
structure DecodedFields where
  signer_public_key : U8Array 32
  payload_hash : U8Array 32
  timestamp : Int64
  signature : U8Array 64
deriving DecidableEq

/-- The one error of every rejected artifact. -/
def reject : TrustError := .InvalidSignature

/-- A byte string of a fixed size. -/
def fixed_bytes (n : Nat) (value : rfc8949.Value) : TrustResult (U8Array n) := do
  let .bytes content := value | .error reject
  ok_or (U8Array.try_from n content) reject

def require_integer (value : rfc8949.Value) (expected : Int) : TrustResult Unit := do
  let .integer int := value | .error reject
  reject_if (int ≠ expected) reject

section Decode

variable [Ciborium]

def parse_value (bytes : Bytes) : TrustResult rfc8949.Value :=
  (Ciborium.from_reader bytes).mapError fun _ => reject

/-- Decodes an artifact into its fields, up to the canonical encoding that the caller
checks. -/
def decode_fields (bytes : Bytes) : TrustResult DecodedFields := do
  reject_if (bytes.length > MAX_ARTIFACT_LEN) reject
  let .tag tag boxed ← parse_value bytes | .error reject
  reject_if (tag ≠ COSE_SIGN1_TAG) reject
  let .array [protected_item, unprotected_item, claims_item, signature_item] := boxed | .error reject
  let .map unprotected := unprotected_item | .error reject
  reject_if (unprotected.length ≠ 0) reject
  let signature ← fixed_bytes 64 signature_item
  let .bytes protected_raw := protected_item | .error reject
  let .map [(alg_key, alg), (ct_key, ct), (kid_key, kid)] ← parse_value protected_raw | .error reject
  require_integer alg_key HEADER_LABEL_ALG.toNat
  require_integer alg ALG_EDDSA
  require_integer ct_key HEADER_LABEL_CONTENT_TYPE.toNat
  let .text content_type := ct | .error reject
  reject_if (content_type ≠ CONTENT_TYPE) reject
  require_integer kid_key HEADER_LABEL_KID.toNat
  let signer_public_key ← fixed_bytes 32 kid
  let .bytes claims_raw := claims_item | .error reject
  let .map [(hash_key, hash), (ts_key, ts)] ← parse_value claims_raw | .error reject
  require_integer hash_key CLAIM_KEY_PAYLOAD_HASH.toNat
  let payload_hash ← fixed_bytes 32 hash
  require_integer ts_key CLAIM_KEY_TIMESTAMP.toNat
  let .integer ts_int := ts | .error reject
  let timestamp ← ok_or (i64_try_from ts_int) reject
  return { signer_public_key, payload_hash, timestamp, signature }

end Decode

/-- The data item of the protected header. -/
def protected_value (signer_public_key : U8Array 32) : rfc8949.Value :=
  .map [(.integer 1, .integer (-8)), (.integer 3, .text CONTENT_TYPE),
    (.integer 4, .bytes signer_public_key.as_slice)]

/-- The data item of the claims. -/
def claims_value (payload_hash : U8Array 32) (timestamp : Int64) : rfc8949.Value :=
  .map [(.integer 1, .bytes payload_hash.as_slice), (.integer 2, .integer timestamp.toInt)]

/-- The data item of an artifact. -/
def artifact_value (signer_public_key payload_hash : U8Array 32) (timestamp : Int64)
    (signature : U8Array 64) : rfc8949.Value :=
  .tag COSE_SIGN1_TAG (.array [.bytes (protected_bytes signer_public_key), .map [],
    .bytes (claims_bytes payload_hash timestamp), .bytes signature.as_slice])

/-- The data item of a `Sig_structure`. -/
def sig_structure_value (protectedPart claims : Bytes) : rfc8949.Value :=
  .array [.text "Signature1".toList, .bytes protectedPart, .bytes [], .bytes claims]

theorem major_bits_or {major info : Nat} (hmajor : major < 8) (hinfo : info < 32) :
    UInt8.ofNat major <<< 5 ||| UInt8.ofNat info = UInt8.ofNat (32 * major + info) := by
  have h : ∀ major : Fin 8, ∀ info : Fin 32,
      UInt8.ofNat major <<< 5 ||| UInt8.ofNat info = UInt8.ofNat (32 * major.val + info.val) := by
    decide +kernel
  exact h ⟨major, hmajor⟩ ⟨info, hinfo⟩

/-- The hand-written head is the shortest head. -/
theorem write_head_eq {major : Nat} (hmajor : major < 8) (value : UInt64) :
    write_head (UInt8.ofNat major) value = rfc8949.head major value.toNat := by
  have hlt : value < 24 ↔ value.toNat < 24 := UInt64.lt_iff_toNat_lt
  have h8 : value ≤ 0xff ↔ value.toNat < 2 ^ 8 := UInt64.le_iff_toNat_le.trans Nat.lt_succ_iff.symm
  have h16 : value ≤ 0xffff ↔ value.toNat < 2 ^ 16 := UInt64.le_iff_toNat_le.trans Nat.lt_succ_iff.symm
  have h32 : value ≤ 0xffffffff ↔ value.toNat < 2 ^ 32 := UInt64.le_iff_toNat_le.trans Nat.lt_succ_iff.symm
  have hu8 : value.toUInt8 = UInt8.ofNat value.toNat := rfl
  simp only [write_head, rfc8949.head]
  by_cases htiny : value.toNat < 24
  · rw [if_pos (h8.mpr (by omega)), if_pos (hlt.mpr htiny), if_pos htiny, hu8, major_bits_or hmajor (by omega)]
  rw [if_neg htiny]
  by_cases hbyte : value.toNat < 2 ^ 8
  · rw [if_pos (h8.mpr hbyte), if_neg (hlt.not.mpr htiny), if_pos hbyte]
    change [UInt8.ofNat major <<< 5 ||| UInt8.ofNat 24, _] = _
    rw [major_bits_or hmajor (by decide), hu8]
    simp [to_be_bytes]
  rw [if_neg (h8.not.mpr hbyte), if_neg hbyte]
  by_cases hshort : value.toNat < 2 ^ 16
  · rw [if_pos (h16.mpr hshort), if_pos hshort]
    change (UInt8.ofNat major <<< 5 ||| UInt8.ofNat 25) :: _ = _
    rw [major_bits_or hmajor (by decide)]
  rw [if_neg (h16.not.mpr hshort), if_neg hshort]
  by_cases hword : value.toNat < 2 ^ 32
  · rw [if_pos (h32.mpr hword), if_pos hword]
    change (UInt8.ofNat major <<< 5 ||| UInt8.ofNat 26) :: _ = _
    rw [major_bits_or hmajor (by decide)]
  · rw [if_neg (h32.not.mpr hword), if_neg hword]
    change (UInt8.ofNat major <<< 5 ||| UInt8.ofNat 27) :: _ = _
    rw [major_bits_or hmajor (by decide)]

theorem write_head_bytes {content : Bytes} (h : content.length < 2 ^ 64) :
    write_head MAJOR_BYTES (UInt64.ofNat content.length) = rfc8949.head 2 content.length := by
  rw [show MAJOR_BYTES = UInt8.ofNat 2 from rfl, write_head_eq (by decide), UInt64.toNat_ofNat_of_lt' h]

theorem unsigned_abs_toNat (value : Int64) : (unsigned_abs value).toNat = value.toInt.natAbs := by
  have hlo := value.le_toInt
  have hhi := value.toInt_lt
  rw [unsigned_abs, UInt64.toNat_ofNat_of_lt']
  change value.toInt.natAbs < 2 ^ 64
  omega

/-- The subtraction in `write_i64` stays within `u64`. -/
theorem unsigned_abs_sub_one {value : Int64} (hneg : value < 0) :
    1 ≤ unsigned_abs value ∧ ((unsigned_abs value - 1).toNat : Int) = -1 - value.toInt := by
  have habs := unsigned_abs_toNat value
  have hsign : value.toInt < 0 := Int64.lt_iff_toInt_lt.mp hneg
  have hle : (1 : UInt64) ≤ unsigned_abs value := by
    rw [UInt64.le_iff_toNat_le, habs]
    change 1 ≤ _
    omega
  refine ⟨hle, ?_⟩
  rw [UInt64.toNat_sub_of_le _ _ hle, habs]
  change ((value.toInt.natAbs - 1 : Nat) : Int) = _
  omega

/-- The two branches by sign are the two major types of an integer. -/
theorem write_i64_eq (value : Int64) : write_i64 value = rfc8949.encode_integer value.toInt := by
  have habs := unsigned_abs_toNat value
  have hzero : value ≥ 0 ↔ 0 ≤ value.toInt := Int64.le_iff_toInt_le
  rw [write_i64, rfc8949.encode_integer]
  by_cases hsign : 0 ≤ value.toInt
  · rw [if_pos (hzero.mpr hsign), if_pos hsign]
    rw [show value.toInt.toNat = (unsigned_abs value).toNat by omega]
    exact @write_head_eq 0 (by decide) _
  · rw [if_neg (hzero.not.mpr hsign), if_neg hsign]
    have hneg : value < 0 := Int64.not_le.mp (hzero.not.mpr hsign)
    have hone : (unsigned_abs value - 1).toNat = (-1 - value.toInt).toNat := by
      rw [← (unsigned_abs_sub_one hneg).2, Int.toNat_natCast]
    rw [← hone]
    exact @write_head_eq 1 (by decide) _

theorem length_write_i64 (value : Int64) : 1 ≤ (write_i64 value).length ∧ (write_i64 value).length ≤ 9 := by
  rw [write_i64_eq, rfc8949.encode_integer]
  split <;> exact rfc8949.length_head_le _ _

/-- `i64::wrapping_abs`, by which `unsigned_abs` is computed. Its negation wraps at `i64::MIN`. -/
def wrapping_abs (value : Int64) : Int64 := if value < 0 then -value else value

/-- The bits of an `i64` read as a `u64`. -/
theorem toUInt64_toNat (value : Int64) : (value.toUInt64.toNat : Int) = value.toInt % 2 ^ 64 := by
  have hlt := value.toBitVec.isLt
  have hint : value.toInt = _ := BitVec.toInt_eq_toNat_cond value.toBitVec
  change (value.toBitVec.toNat : Int) = _
  rw [hint]
  split_ifs <;> omega

/-- The bits of the wrapped magnitude are the exact magnitude, at `i64::MIN` too. -/
theorem unsigned_abs_eq_wrapping_abs (value : Int64) : unsigned_abs value = (wrapping_abs value).toUInt64 := by
  have hlo := value.le_toInt
  have hhi := value.toInt_lt
  have hsign : value < 0 ↔ value.toInt < 0 := Int64.lt_iff_toInt_lt
  have hbits := toUInt64_toNat (wrapping_abs value)
  apply UInt64.toNat_inj.mp
  rw [unsigned_abs_toNat]
  unfold wrapping_abs at hbits ⊢
  by_cases hneg : value < 0
  · rw [if_pos hneg] at hbits ⊢
    rw [Int64.toInt_neg, show (2 ^ 64 : Int) = (2 ^ 64 : Nat) from rfl, Int.bmod_emod] at hbits
    rw [hsign] at hneg
    omega
  · rw [if_neg hneg] at hbits ⊢
    rw [hsign] at hneg
    omega

theorem write_head_eq_head {major : UInt8} (hmajor : major ≤ 7) (value : UInt64) :
    major.toNat < 8 ∧ write_head major value = rfc8949.head major.toNat value.toNat := by
  have hlt : major.toNat < 8 := Nat.lt_succ_of_le (UInt8.le_iff_toNat_le.mp hmajor)
  have hhead := write_head_eq hlt value
  rw [UInt8.ofNat_toNat] at hhead
  exact ⟨hlt, hhead⟩

theorem shortest_write_i64 (value : Int64) :
    rfc8949.Shortest rfc8949.read_integer value.toInt (write_i64 value) := by
  have hlo := value.le_toInt
  have hhi := value.toInt_lt
  rw [write_i64_eq]
  exact rfc8949.shortest_encode_integer (by omega) (by omega)

/-- Heads are prefix-free over every major type and argument, and shortest-form exactly where
they stand for an argument at all, which leaves out floats and the ill-formed simple values of
major type 7; and the heads of signed integers are both, with no operation that overflows. -/
theorem heads_shortest_prefix_free {major : UInt8} (hmajor : major ≤ 7) (value : UInt64) (n : Int64) :
    ((rfc8949.Shortest rfc8949.read_major_argument (major.toNat, value.toNat) (write_head major value) ↔
        rfc8949.HasArgument major.toNat value.toNat) ∧
      ∀ major' value' rest rest', major' ≤ 7 → write_head major value ++ rest = write_head major' value' ++ rest' →
        major = major' ∧ value = value' ∧ rest = rest') ∧
    (rfc8949.Shortest rfc8949.read_integer n.toInt (write_i64 n) ∧
      (∀ depth, rfc8949.Shortest (rfc8949.decode (depth + 1)) (.integer n.toInt) (write_i64 n)) ∧
      ∀ n' rest rest', write_i64 n ++ rest = write_i64 n' ++ rest' → n = n' ∧ rest = rest') ∧
    (unsigned_abs n).toNat = n.toInt.natAbs ∧ unsigned_abs n = (wrapping_abs n).toUInt64 ∧
    (n < 0 → 1 ≤ unsigned_abs n ∧ ((unsigned_abs n - 1).toNat : Int) = -1 - n.toInt) := by
  obtain ⟨hlt, hhead⟩ := write_head_eq_head hmajor value
  refine ⟨⟨?_, ?_⟩, ⟨shortest_write_i64 n, (shortest_write_i64 n).decode, ?_⟩, unsigned_abs_toNat n,
    unsigned_abs_eq_wrapping_abs n, unsigned_abs_sub_one⟩
  · rw [hhead]
    exact rfc8949.shortest_head_iff hlt value.toNat_lt
  · intro major' value' rest rest' hmajor' h
    obtain ⟨hlt', hhead'⟩ := write_head_eq_head hmajor' value'
    rw [hhead, hhead'] at h
    obtain ⟨hsame, hvalue, hrest⟩ := rfc8949.head_append_inj hlt value.toNat_lt hlt' value'.toNat_lt h
    exact ⟨UInt8.toNat_inj.mp hsame, UInt64.toNat_inj.mp hvalue, hrest⟩
  · intro n' rest rest' h
    obtain ⟨hn, hrest⟩ := (shortest_write_i64 n).eq_of_append_eq (shortest_write_i64 n') h
    exact ⟨Int64.toInt_inj.mp hn, hrest⟩

/-- At the ends of both ranges. -/
theorem heads_shortest_prefix_free_max_min :
    rfc8949.read_major_argument ([0xdb, 255, 255, 255, 255, 255, 255, 255, 255, 0] : Bytes) =
        some ((6, 2 ^ 64 - 1), [0]) ∧
      rfc8949.read_integer ([0x3b, 127, 255, 255, 255, 255, 255, 255, 255, 0] : Bytes) = some (-2 ^ 63, [0]) ∧
      (unsigned_abs Int64.minValue - 1).toNat = 2 ^ 63 - 1 := by
  obtain ⟨⟨hhead, _⟩, ⟨hinteger, _⟩, _, _, hsub⟩ :=
    @heads_shortest_prefix_free 6 (by decide) (-1) Int64.minValue
  refine ⟨(hhead.mpr (by decide)).read_append [0], hinteger.read_append [0], ?_⟩
  have hone := (hsub (by decide)).2
  rw [show Int64.minValue.toInt = -2 ^ 63 from rfl] at hone
  omega

/-- Of major type 7, the head of 24 is no well-formed item, and the head of 256 is a float. -/
theorem heads_of_major_7_not_read :
    write_head 7 24 = [0xf8, 0x18] ∧ rfc8949.read_major_argument (write_head 7 24) = none ∧
      write_head 7 256 = [0xf9, 1, 0] ∧ rfc8949.read_major_argument (write_head 7 256) = none := by
  decide

theorem length_protected_bytes (signer_public_key : U8Array 32) :
    (protected_bytes signer_public_key).length = 80 := by
  have hkey := signer_public_key.length_eq
  simp only [protected_bytes, List.length_append, hkey]
  decide

theorem length_claims_bytes (payload_hash : U8Array 32) (timestamp : Int64) :
    38 ≤ (claims_bytes payload_hash timestamp).length ∧ (claims_bytes payload_hash timestamp).length ≤ 46 := by
  have hhash := payload_hash.length_eq
  have htimestamp := length_write_i64 timestamp
  have hhead : (write_head MAJOR_MAP 2).length + (write_head MAJOR_UNSIGNED CLAIM_KEY_PAYLOAD_HASH).length +
      (write_head MAJOR_BYTES 32).length + (write_head MAJOR_UNSIGNED CLAIM_KEY_TIMESTAMP).length = 5 := by
    decide
  simp only [claims_bytes, List.length_append, hhash]
  have hofNat : UInt64.ofNat 32 = 32 := rfl
  rw [hofNat]
  omega

theorem protected_bytes_eq_encode (signer_public_key : U8Array 32) :
    protected_bytes signer_public_key = rfc8949.encode (protected_value signer_public_key) := by
  have hkey := signer_public_key.length_eq
  simp only [protected_bytes, protected_value, rfc8949.encode, rfc8949.encode_entries, hkey, List.append_nil,
    ← List.append_assoc, List.length_cons, List.length_nil]
  congr 1

theorem claims_bytes_eq_encode (payload_hash : U8Array 32) (timestamp : Int64) :
    claims_bytes payload_hash timestamp = rfc8949.encode (claims_value payload_hash timestamp) := by
  have hhash := payload_hash.length_eq
  simp only [claims_bytes, claims_value, rfc8949.encode, rfc8949.encode_entries, hhash, List.append_nil,
    ← List.append_assoc, List.length_cons, List.length_nil, write_i64_eq]
  congr 1

theorem artifact_bytes_eq_encode (signer_public_key payload_hash : U8Array 32) (timestamp : Int64)
    (signature : U8Array 64) : artifact_bytes signer_public_key payload_hash timestamp signature =
      rfc8949.encode (artifact_value signer_public_key payload_hash timestamp signature) := by
  have hprotected := length_protected_bytes signer_public_key
  have hclaims := length_claims_bytes payload_hash timestamp
  rw [artifact_value, rfc8949.encode, rfc8949.encode]
  simp only [artifact_bytes, rfc8949.encode, rfc8949.encode_items, rfc8949.encode_entries, List.append_nil,
    List.length_cons, List.length_nil]
  rw [write_head_bytes (by omega), write_head_bytes (by omega), write_head_bytes (by simp)]
  simp only [List.append_assoc]
  rfl

theorem sig_structure_bytes_eq_encode {protectedPart claims : Bytes} (hprotected : protectedPart.length < 2 ^ 64)
    (hclaims : claims.length < 2 ^ 64) :
    sig_structure_bytes protectedPart claims = rfc8949.encode (sig_structure_value protectedPart claims) := by
  rw [sig_structure_value, rfc8949.encode]
  simp only [sig_structure_bytes, rfc8949.encode, rfc8949.encode_items, List.append_nil, List.length_cons,
    List.length_nil]
  rw [write_head_bytes hprotected, write_head_bytes hclaims]
  simp only [List.append_assoc]
  rfl

theorem canonical_protected_value (depth : Nat) (signer_public_key : U8Array 32) :
    rfc8949.Canonical (depth + 2) (protected_value signer_public_key) := by
  have hkey := signer_public_key.length_eq
  have htext : (as_bytes CONTENT_TYPE).length < 2 ^ 64 := by decide
  refine ⟨by simp, ?_, ?_⟩
  · rw [List.map_cons, List.map_cons, List.map_cons, List.map_nil, rfc8949.encode, rfc8949.encode, rfc8949.encode]
    decide
  · simp only [List.forall_mem_cons, List.not_mem_nil, false_implies, implies_true, and_true,
      rfc8949.Canonical, hkey, htext]
    decide

theorem canonical_claims_value (depth : Nat) (payload_hash : U8Array 32) (timestamp : Int64) :
    rfc8949.Canonical (depth + 2) (claims_value payload_hash timestamp) := by
  have hhash := payload_hash.length_eq
  have hlo := timestamp.le_toInt
  have hhi := timestamp.toInt_lt
  refine ⟨by simp, ?_, ?_⟩
  · rw [List.map_cons, List.map_cons, List.map_nil, rfc8949.encode, rfc8949.encode]
    decide
  · simp only [List.forall_mem_cons, List.not_mem_nil, false_implies, implies_true, and_true,
      rfc8949.Canonical, hhash]
    omega

theorem canonical_artifact_value (depth : Nat) (signer_public_key payload_hash : U8Array 32) (timestamp : Int64)
    (signature : U8Array 64) :
    rfc8949.Canonical (depth + 3) (artifact_value signer_public_key payload_hash timestamp signature) := by
  have hprotected := length_protected_bytes signer_public_key
  have hclaims := length_claims_bytes payload_hash timestamp
  have hsignature := signature.length_eq
  refine ⟨by decide, by decide, by simp, ?_⟩
  simp only [List.forall_mem_cons, List.not_mem_nil, false_implies, implies_true, and_true,
    rfc8949.Canonical, hprotected, hsignature]
  exact ⟨by decide, ⟨by simp, by simp⟩, by omega, by decide⟩

theorem canonical_sig_structure_value (depth : Nat) {protectedPart claims : Bytes}
    (hprotected : protectedPart.length < 2 ^ 64) (hclaims : claims.length < 2 ^ 64) :
    rfc8949.Canonical (depth + 2) (sig_structure_value protectedPart claims) := by
  refine ⟨by simp, ?_⟩
  simp only [List.forall_mem_cons, List.not_mem_nil, false_implies, implies_true, and_true, rfc8949.Canonical]
  exact ⟨by decide, hprotected, by decide, hclaims⟩

/-- The signed structure determines the signer, the payload hash and the timestamp. -/
theorem eq_of_sig_structure_bytes_eq {key key' hash hash' : U8Array 32} {timestamp timestamp' : Int64}
    (h : sig_structure_bytes (protected_bytes key) (claims_bytes hash timestamp) =
      sig_structure_bytes (protected_bytes key') (claims_bytes hash' timestamp')) :
    key = key' ∧ hash = hash' ∧ timestamp = timestamp' := by
  have hprotected : ∀ key, (protected_bytes key).length < 2 ^ 64 := by simp [length_protected_bytes]
  have hclaims : ∀ hash timestamp, (claims_bytes hash timestamp).length < 2 ^ 64 := fun hash timestamp =>
    (length_claims_bytes hash timestamp).2.trans_lt (by decide)
  rw [sig_structure_bytes_eq_encode (hprotected _) (hclaims _ _),
    sig_structure_bytes_eq_encode (hprotected _) (hclaims _ _)] at h
  have hvalue := rfc8949.eq_of_encode_eq (canonical_sig_structure_value 0 (hprotected _) (hclaims _ _))
    (canonical_sig_structure_value 0 (hprotected _) (hclaims _ _)) h
  simp only [sig_structure_value, rfc8949.Value.array.injEq, List.cons.injEq, rfc8949.Value.bytes.injEq,
    true_and, and_true] at hvalue
  obtain ⟨hkey, hclaim⟩ := hvalue
  rw [protected_bytes_eq_encode, protected_bytes_eq_encode] at hkey
  rw [claims_bytes_eq_encode, claims_bytes_eq_encode] at hclaim
  have hkey := rfc8949.eq_of_encode_eq (canonical_protected_value 0 _) (canonical_protected_value 0 _) hkey
  have hclaim := rfc8949.eq_of_encode_eq (canonical_claims_value 0 _ _) (canonical_claims_value 0 _ _) hclaim
  simp only [protected_value, claims_value, rfc8949.Value.map.injEq, List.cons.injEq, Prod.mk.injEq,
    rfc8949.Value.bytes.injEq, rfc8949.Value.integer.injEq, true_and, and_true] at hkey hclaim
  exact ⟨U8Array.ext hkey, U8Array.ext hclaim.1, Int64.toInt_inj.mp hclaim.2⟩

theorem fixed_bytes_as_slice {n : Nat} (array : U8Array n) : fixed_bytes n (.bytes array.as_slice) = .ok array := by
  rw [fixed_bytes, U8Array.try_from_as_slice]
  rfl

theorem length_artifact_bytes (signer_public_key payload_hash : U8Array 32) (timestamp : Int64)
    (signature : U8Array 64) :
    191 ≤ (artifact_bytes signer_public_key payload_hash timestamp signature).length ∧
      (artifact_bytes signer_public_key payload_hash timestamp signature).length ≤ 199 := by
  have hprotected := length_protected_bytes signer_public_key
  have hclaims := length_claims_bytes payload_hash timestamp
  have hsignature := signature.length_eq
  have hclaimsHead : (write_head MAJOR_BYTES (UInt64.ofNat (claims_bytes payload_hash timestamp).length)).length = 2 := by
    rw [write_head_bytes (by omega), rfc8949.head, if_neg (by omega), if_pos (by omega)]
    rfl
  have hheads : (write_head MAJOR_TAG COSE_SIGN1_TAG).length + (write_head MAJOR_ARRAY 4).length +
      (write_head MAJOR_BYTES (UInt64.ofNat 80)).length + (write_head MAJOR_MAP 0).length +
      (write_head MAJOR_BYTES (UInt64.ofNat 64)).length = 7 := by
    decide
  simp only [artifact_bytes, List.length_append, hprotected, hsignature, hclaimsHead]
  omega

section Decode

variable [Ciborium] [Rfc8949Ciborium]

theorem parse_value_encode {value : rfc8949.Value} (h : rfc8949.Canonical 64 value) :
    parse_value (rfc8949.encode value) = .ok value := by
  have hread := Rfc8949Ciborium.from_reader_encode value [] h
  rw [List.append_nil] at hread
  rw [parse_value, hread]
  rfl

/-- The decoder run over an encoded artifact. -/
theorem decode_fields_artifact_bytes (signer_public_key payload_hash : U8Array 32) (timestamp : Int64)
    (signature : U8Array 64) :
    decode_fields (artifact_bytes signer_public_key payload_hash timestamp signature) =
      .ok { signer_public_key, payload_hash, timestamp, signature } := by
  have hlength := length_artifact_bytes signer_public_key payload_hash timestamp signature
  have hcap : ¬ (artifact_bytes signer_public_key payload_hash timestamp signature).length > MAX_ARTIFACT_LEN := by
    rw [MAX_ARTIFACT_LEN]
    omega
  have hartifact : parse_value (artifact_bytes signer_public_key payload_hash timestamp signature) =
      .ok (artifact_value signer_public_key payload_hash timestamp signature) := by
    rw [artifact_bytes_eq_encode]
    exact parse_value_encode (canonical_artifact_value 61 _ _ _ _)
  have hprotected : parse_value (protected_bytes signer_public_key) = .ok (protected_value signer_public_key) := by
    rw [protected_bytes_eq_encode]
    exact parse_value_encode (canonical_protected_value 62 _)
  have hclaims : parse_value (claims_bytes payload_hash timestamp) = .ok (claims_value payload_hash timestamp) := by
    rw [claims_bytes_eq_encode]
    exact parse_value_encode (canonical_claims_value 62 _ _)
  rw [decode_fields, reject_if_of_not hcap, ok_bind, hartifact]
  simp only [artifact_value, ok_bind, ne_eq, not_true_eq_false, reject_if_of_not, not_false_eq_true,
    List.length_nil, fixed_bytes_as_slice, hprotected, hclaims, protected_value, claims_value, i64_try_from_toInt]
  rfl

end Decode

end lys
