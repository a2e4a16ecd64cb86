import Lys.Crates
import Lys.Error

open rust

namespace lys

/-- Root hash of a tree at a particular size. -/
@[ext]
structure RootHash where
  root_hash : U8Array 32
  num_leaves : UInt64
deriving DecidableEq

namespace RootHash

def from_parts (root_hash : U8Array 32) (num_leaves : UInt64) : RootHash := ⟨root_hash, num_leaves⟩

def to_parts (root : RootHash) : U8Array 32 × UInt64 := (root.root_hash, root.num_leaves)

/-- The published parts are what the root is rebuilt from. -/
theorem from_parts_to_parts (root : RootHash) : from_parts root.to_parts.1 root.to_parts.2 = root := rfl

end RootHash

structure InclusionProof where
  as_bytes : Bytes

structure ConsistencyProof where
  as_bytes : Bytes

/-- RFC 6962 leaf hash of raw bytes. -/
def raw_leaf_hash [Sha2] (leaf_bytes : Bytes) : U8Array 32 := sha256 (0x00 :: leaf_bytes)

/-- The bytes a leaf enters a tree with. -/
def serialize_leaf {L : Type} [Postcard L] (leaf : L) : TrustResult Bytes :=
  (Postcard.to_allocvec leaf).mapError fun e => .MerkleTree s!"failed to serialize leaf for Merkle tree: {e}"

variable [CtMerkle]

def InclusionProof.try_from_bytes (bytes : Bytes) : TrustResult InclusionProof :=
  ((CtMerkle.inclusion_try_from_bytes bytes).map InclusionProof.mk).mapError fun e =>
    .MerkleTree s!"inclusion proof bytes are malformed: {e}"

def ConsistencyProof.try_from_bytes (bytes : Bytes) : TrustResult ConsistencyProof :=
  ((CtMerkle.consistency_try_from_bytes bytes).map ConsistencyProof.mk).mapError fun e =>
    .MerkleTree s!"consistency proof bytes are malformed: {e}"

/-- Verifies inclusion of raw leaf bytes. -/
def verify_inclusion_raw (root_hash : RootHash) (leaf_bytes : Bytes) (index : UInt64)
    (proof : InclusionProof) : TrustResult Unit :=
  (CtMerkle.verify_inclusion root_hash.root_hash root_hash.num_leaves leaf_bytes index
    proof.as_bytes).mapError fun e => .MerkleTree s!"inclusion proof verification failed: {e}"

/-- Verifies inclusion of a leaf through its `postcard` encoding. -/
def verify_inclusion {L : Type} [Postcard L] (root_hash : RootHash) (leaf : L) (index : UInt64)
    (proof : InclusionProof) : TrustResult Unit := do
  let serialized ← serialize_leaf leaf
  (CtMerkle.verify_inclusion root_hash.root_hash root_hash.num_leaves serialized index
    proof.as_bytes).mapError fun e => .MerkleTree s!"inclusion proof verification failed: {e}"

/-- Verifies that the tree of `old_root` is a prefix of the tree of `new_root`. -/
def verify_consistency (old_root new_root : RootHash) (proof : ConsistencyProof) : TrustResult Unit :=
  (CtMerkle.verify_consistency new_root.root_hash new_root.num_leaves old_root.root_hash
    old_root.num_leaves proof.as_bytes).mapError fun e =>
      .MerkleTree s!"consistency proof verification failed: {e}"

section Rfc6962

variable [Sha2] [Rfc6962CtMerkle]

theorem InclusionProof.try_from_bytes_eq_ok_iff {bytes : Bytes} {proof : InclusionProof} :
    InclusionProof.try_from_bytes bytes = .ok proof ↔ proof = ⟨bytes⟩ ∧ 32 ∣ bytes.length := by
  simp only [InclusionProof.try_from_bytes, mapError_eq_ok_iff, map_eq_ok_iff,
    Rfc6962CtMerkle.inclusion_try_from_bytes_eq_ok_iff]
  constructor
  · rintro ⟨_, ⟨rfl, hdvd⟩, rfl⟩
    exact ⟨rfl, hdvd⟩
  · rintro ⟨rfl, hdvd⟩
    exact ⟨bytes, ⟨rfl, hdvd⟩, rfl⟩

theorem ConsistencyProof.try_from_bytes_eq_ok_iff {bytes : Bytes} {proof : ConsistencyProof} :
    ConsistencyProof.try_from_bytes bytes = .ok proof ↔ proof = ⟨bytes⟩ ∧ 32 ∣ bytes.length := by
  simp only [ConsistencyProof.try_from_bytes, mapError_eq_ok_iff, map_eq_ok_iff,
    Rfc6962CtMerkle.consistency_try_from_bytes_eq_ok_iff]
  constructor
  · rintro ⟨_, ⟨rfl, hdvd⟩, rfl⟩
    exact ⟨rfl, hdvd⟩
  · rintro ⟨rfl, hdvd⟩
    exact ⟨bytes, ⟨rfl, hdvd⟩, rfl⟩

/-- Raw inclusion accepts the concatenated RFC 6962 audit path and nothing else. -/
theorem verify_inclusion_raw_eq_ok_iff {root : RootHash} {leaf : Bytes} {i : UInt64} {proof : InclusionProof}
    (hsize : root.num_leaves.toNat < 2 ^ 63) :
    verify_inclusion_raw root leaf i proof = .ok () ↔
      ∃ siblings, proof.as_bytes = siblings.flatMap U8Array.as_slice ∧
        rfc6962.verify_path sha256_hasher root.root_hash (sha256_hasher.leaf leaf) i.toNat
          root.num_leaves.toNat siblings = true := by
  rw [verify_inclusion_raw, mapError_eq_ok_iff]
  exact Rfc6962CtMerkle.verify_inclusion_eq_ok_iff _ _ _ _ _ hsize

/-- Consistency accepts the concatenated RFC 6962 proof and nothing else. -/
theorem verify_consistency_eq_ok_iff {old new : RootHash} {proof : ConsistencyProof}
    (hsize : new.num_leaves.toNat < 2 ^ 63) (hpos : 1 ≤ old.num_leaves.toNat)
    (hlt : old.num_leaves < new.num_leaves) :
    verify_consistency old new proof = .ok () ↔
      ∃ hashes, proof.as_bytes = hashes.flatMap U8Array.as_slice ∧
        rfc6962.verify_proof sha256_hasher old.root_hash new.root_hash old.num_leaves.toNat
          new.num_leaves.toNat hashes = true := by
  rw [verify_consistency, mapError_eq_ok_iff]
  exact Rfc6962CtMerkle.verify_consistency_eq_ok_iff _ _ _ _ _ hsize hpos hlt

end Rfc6962

end lys
