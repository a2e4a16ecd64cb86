import Lys.Rfc4648.Base64
import Lys.Rfc6962.Soundness
import Lys.Rfc8949.Value

open rust

namespace lys

/-- The `sha2` crate: `Sha256` over a whole message. -/
class Sha2 where
  sha256 : Bytes → U8Array 32

export Sha2 (sha256)

/-- The hashes of RFC 6962 §2.1 over SHA-256. -/
def sha256_hasher [Sha2] : rfc6962.Hasher Bytes (U8Array 32) where
  empty := sha256 []
  leaf data := sha256 (0x00 :: data)
  node left right := sha256 (0x01 :: (left.as_slice ++ right.as_slice))

/-- The `base64` crate's `STANDARD` engine. A decoding error carries its text. -/
class Base64 where
  encode : Bytes → Str
  decode : Str → Except String Bytes

/-- `STANDARD` writes the padded base64 of RFC 4648 and reads nothing else: padding
and zero trailing bits are required. -/
class StandardBase64 [Base64] : Prop where
  encode_eq : ∀ bytes, Base64.encode bytes = rfc4648.encode bytes
  decode_eq_ok_iff : ∀ s bytes, Base64.decode s = .ok bytes ↔ s = rfc4648.encode bytes

/-- The `ed25519-dalek` crate, keys and signatures in their byte forms. -/
class Ed25519Dalek where
  /-- `SigningKey::from_bytes(seed).verifying_key().to_bytes()` -/
  verifying_key : U8Array 32 → U8Array 32
  /-- `SigningKey::from_bytes(seed).sign(message).to_bytes()` -/
  sign : U8Array 32 → Bytes → U8Array 64
  /-- `VerifyingKey::from_bytes(key).is_ok()` -/
  is_valid_key : U8Array 32 → Bool
  /-- `key.verify_strict(message, signature).is_ok()` -/
  verify_strict : U8Array 32 → Bytes → U8Array 64 → Bool

/-- Verification accepts the signatures that the signing key of the same pair makes. -/
class GenuineEd25519 [Ed25519Dalek] : Prop where
  is_valid_key : ∀ seed, Ed25519Dalek.is_valid_key (Ed25519Dalek.verifying_key seed) = true
  verify_strict : ∀ seed message,
    Ed25519Dalek.verify_strict (Ed25519Dalek.verifying_key seed) message
      (Ed25519Dalek.sign seed message) = true

/-- The conversion of an `ed25519-dalek` signing key to a scalar. -/
class Ed25519Scalar where
  /-- `SigningKey::from_bytes(seed).to_scalar_bytes()` -/
  to_scalar_bytes : U8Array 32 → U8Array 32

/-- The `ct-merkle` crate over SHA-256. A `MemoryBackedTree` is given by the leaves pushed
to it; proofs are in their byte forms and errors carry their texts. -/
class CtMerkle where
  /-- `MemoryBackedTree::root().as_bytes()` -/
  root : List Bytes → U8Array 32
  /-- `MemoryBackedTree::prove_inclusion(idx)`, which panics unless `idx < len` -/
  prove_inclusion : List Bytes → Nat → Bytes
  /-- `MemoryBackedTree::prove_consistency(num_additions)`, which panics unless
  `num_additions < len` -/
  prove_consistency : List Bytes → Nat → Bytes
  /-- `InclusionProof::try_from_bytes` -/
  inclusion_try_from_bytes : Bytes → Except String Bytes
  /-- `ConsistencyProof::try_from_bytes` -/
  consistency_try_from_bytes : Bytes → Except String Bytes
  /-- `RootHash::new(root, num_leaves).verify_inclusion(leaf, idx, proof)` -/
  verify_inclusion : U8Array 32 → UInt64 → Bytes → UInt64 → Bytes → Except String Unit
  /-- `RootHash::new(new_root, new_size).verify_consistency(RootHash::new(old_root, old_size), proof)` -/
  verify_consistency : U8Array 32 → UInt64 → U8Array 32 → UInt64 → Bytes → Except String Unit

/-- `ct-merkle` computes RFC 6962 roots and paths and accepts a path exactly when it has
the length that the sizes give and recomputes the roots. Its node numbering fits `u64`
for trees below `2 ^ 63` leaves. -/
class Rfc6962CtMerkle [Sha2] [CtMerkle] : Prop where
  root_eq : ∀ leaves, CtMerkle.root leaves = rfc6962.mth sha256_hasher leaves
  prove_inclusion_eq : ∀ leaves i, i < leaves.length →
    CtMerkle.prove_inclusion leaves i = (rfc6962.path sha256_hasher i leaves).flatMap U8Array.as_slice
  prove_consistency_eq : ∀ leaves m, 1 ≤ m → m < leaves.length →
    CtMerkle.prove_consistency leaves (leaves.length - m) =
      (rfc6962.proof sha256_hasher m leaves).flatMap U8Array.as_slice
  inclusion_try_from_bytes_eq_ok_iff : ∀ bytes proof,
    CtMerkle.inclusion_try_from_bytes bytes = .ok proof ↔ proof = bytes ∧ 32 ∣ bytes.length
  consistency_try_from_bytes_eq_ok_iff : ∀ bytes proof,
    CtMerkle.consistency_try_from_bytes bytes = .ok proof ↔ proof = bytes ∧ 32 ∣ bytes.length
  verify_inclusion_eq_ok_iff : ∀ root (n : UInt64) leaf (i : UInt64) proof, n.toNat < 2 ^ 63 →
    (CtMerkle.verify_inclusion root n leaf i proof = .ok () ↔
      ∃ siblings, proof = siblings.flatMap U8Array.as_slice ∧
        rfc6962.verify_path sha256_hasher root (sha256_hasher.leaf leaf) i.toNat n.toNat siblings = true)
  verify_consistency_eq_ok_iff : ∀ new (n : UInt64) old (m : UInt64) proof, n.toNat < 2 ^ 63 →
    1 ≤ m.toNat → m < n →
    (CtMerkle.verify_consistency new n old m proof = .ok () ↔
      ∃ hashes, proof = hashes.flatMap U8Array.as_slice ∧
        rfc6962.verify_proof sha256_hasher old new m.toNat n.toNat hashes = true)

/-- Between equal sizes the proof is empty and accepted for equal roots. -/
class SameSizeCtMerkle [CtMerkle] : Prop where
  prove_consistency_zero : ∀ leaves, leaves ≠ [] → CtMerkle.prove_consistency leaves 0 = []
  verify_consistency_self : ∀ root (n : UInt64), n.toNat < 2 ^ 63 → 1 ≤ n.toNat →
    CtMerkle.verify_consistency root n root n [] = .ok ()

/-- The `postcard` encoding of a serializable type. -/
class Postcard (L : Type) where
  to_allocvec : L → Except String Bytes

/-- The `serde_json` crate at a type. Errors carry their texts. -/
class SerdeJson (T : Type) where
  to_string_pretty : T → Except String Str
  from_slice : Bytes → Except String T

/-- Pretty JSON is written, and read back with the newline behind it. -/
class LawfulSerdeJson (T : Type) [SerdeJson T] : Prop where
  from_slice_pretty : ∀ value : T, ∃ text, SerdeJson.to_string_pretty value = .ok text ∧
    SerdeJson.from_slice (as_bytes (text ++ ['\n'])) = .ok value

/-- A JSON text starts with an ASCII character. -/
class AsciiSerdeJson (T : Type) [SerdeJson T] : Prop where
  exists_from_slice_eq_error : ∀ (byte : UInt8) (bytes : Bytes), 128 ≤ byte.toNat →
    ∃ e, SerdeJson.from_slice (T := T) (byte :: bytes) = .error e

/-- The `ciborium` crate. -/
class Ciborium where
  /-- `ciborium::de::from_reader::<Value, _>(bytes)` -/
  from_reader : Bytes → Except String rfc8949.Value

/-- `ciborium` decodes one item from the front of its input, and every deterministic
encoding to its value. -/
class Rfc8949Ciborium [Ciborium] : Prop where
  from_reader_encode : ∀ value rest, rfc8949.Canonical 64 value →
    Ciborium.from_reader (rfc8949.encode value ++ rest) = .ok value

/-- The `x25519-dalek` crate, keys and shared secrets in their byte forms. -/
class X25519Dalek where
  /-- `PublicKey::from(&StaticSecret::from(seed)).to_bytes()` -/
  public_key : U8Array 32 → U8Array 32
  /-- `StaticSecret::from(seed).diffie_hellman(&PublicKey::from(key)).as_bytes()` -/
  diffie_hellman : U8Array 32 → U8Array 32 → U8Array 32
  /-- `shared.was_contributory()` -/
  was_contributory : U8Array 32 → Bool

/-- Two parties compute the same shared secret. -/
class Rfc7748X25519 [X25519Dalek] : Prop where
  diffie_hellman_comm : ∀ a b, X25519Dalek.diffie_hellman a (X25519Dalek.public_key b) =
    X25519Dalek.diffie_hellman b (X25519Dalek.public_key a)

/-- The `hkdf` crate. -/
class HkdfSha256 where
  /-- `Hkdf::<Sha256>::new(None, ikm).expand(info, okm)`, `okm` being `n` bytes long -/
  expand : (n : Nat) → Bytes → Bytes → Except String (U8Array n)

/-- The `aes-gcm` crate: `Aes256Gcm` of a key and a nonce, without associated data. -/
class Aes256Gcm where
  encrypt : U8Array 32 → U8Array 12 → Bytes → Except String Bytes
  decrypt : U8Array 32 → U8Array 12 → Bytes → Except String Bytes

/-- Decryption under the key and the nonce of an encryption gives back the message. -/
class GenuineAes256Gcm [Aes256Gcm] : Prop where
  decrypt_eq_ok : ∀ key nonce message ciphertext, Aes256Gcm.encrypt key nonce message = .ok ciphertext →
    Aes256Gcm.decrypt key nonce ciphertext = .ok message

section Collision

/-- The bytes a Merkle leaf or node is the SHA-256 hash of. -/
def preimage_bytes : rfc6962.Preimage Bytes (U8Array 32) → Bytes
  | .leaf data => 0x00 :: data
  | .node left right => 0x01 :: (left.as_slice ++ right.as_slice)

theorem preimage_bytes_injective : Function.Injective preimage_bytes := by
  intro p q h
  cases p with
  | leaf data =>
    cases q with
    | leaf data' => simpa [preimage_bytes] using h
    | node l r => simp [preimage_bytes] at h
  | node l r =>
    cases q with
    | leaf data => simp [preimage_bytes] at h
    | node l' r' =>
      simp only [preimage_bytes, List.cons.injEq, true_and] at h
      obtain ⟨rfl, hright⟩ := U8Array.append_inj h
      rw [U8Array.as_slice_injective hright]

variable [Sha2]

/-- An explicit SHA-256 collision between two of the listed inputs. -/
def Sha256Collision (inputs : List Bytes) : Prop :=
  ∃ a ∈ inputs, ∃ b ∈ inputs, a ≠ b ∧ sha256 a = sha256 b

theorem sha256_preimage_bytes (p : rfc6962.Preimage Bytes (U8Array 32)) :
    sha256 (preimage_bytes p) = sha256_hasher.hash p := by
  cases p <;> rfl

/-- Colliding tree preimages are a SHA-256 collision. -/
theorem sha256Collision_of_collides {ps : List (rfc6962.Preimage Bytes (U8Array 32))}
    (h : sha256_hasher.Collides ps) : Sha256Collision (ps.map preimage_bytes) := by
  obtain ⟨p, hp, q, hq, hne, heq⟩ := h
  refine ⟨_, List.mem_map_of_mem hp, _, List.mem_map_of_mem hq, ?_, ?_⟩
  · exact fun hbytes => hne (preimage_bytes_injective hbytes)
  · rw [sha256_preimage_bytes, sha256_preimage_bytes, heq]

theorem Sha256Collision.mono {inputs inputs' : List Bytes} (h : Sha256Collision inputs)
    (hsub : inputs ⊆ inputs') : Sha256Collision inputs' := by
  obtain ⟨a, ha, b, hb, hne, heq⟩ := h
  exact ⟨a, hsub ha, b, hsub hb, hne, heq⟩

end Collision

end lys
