import Lys.Merkle.Proof

open rust

namespace lys

/-- The leaves a tree holds before `push` panics: a `Vec` of 24-byte `Vec<u8>`s has at
most `isize::MAX` bytes. -/
def MAX_LEAVES : Nat := (2 ^ 63 - 1) / 24

/-- Append-only Merkle log: the serialized leaves in append order. -/
@[ext]
structure AppendOnlyTree where
  leaves : List Bytes
deriving DecidableEq

namespace AppendOnlyTree

def new : AppendOnlyTree := ⟨[]⟩

def len (tree : AppendOnlyTree) : UInt64 := UInt64.ofNat tree.leaves.length

/-- Appends raw bytes verbatim and returns the new tree size. -/
def append_raw (tree : AppendOnlyTree) (leaf_bytes : Bytes) : AppendOnlyTree × UInt64 :=
  let tree : AppendOnlyTree := ⟨tree.leaves ++ [leaf_bytes]⟩
  (tree, tree.len)

/-- Appends a leaf through its `postcard` encoding and returns the new tree size. -/
def append {L : Type} [Postcard L] (tree : AppendOnlyTree) (leaf : L) : TrustResult (AppendOnlyTree × UInt64) := do
  let serialized ← serialize_leaf leaf
  let tree : AppendOnlyTree := ⟨tree.leaves ++ [serialized]⟩
  return (tree, tree.len)

/-- Rebuilds a raw-leaf tree from leaves in their original append order. -/
def reconstruct_from_raw_leaves (leaves : List Bytes) : AppendOnlyTree :=
  leaves.foldl (fun tree leaf => (tree.append_raw leaf).1) new

theorem foldl_append_raw (tree : AppendOnlyTree) (leaves : List Bytes) :
    leaves.foldl (fun tree leaf => (tree.append_raw leaf).1) tree = ⟨tree.leaves ++ leaves⟩ := by
  induction leaves generalizing tree with
  | nil => simp
  | cons leaf leaves ih =>
    rw [List.foldl_cons, ih]
    simp [append_raw]

@[simp] theorem reconstruct_from_raw_leaves_eq (leaves : List Bytes) :
    reconstruct_from_raw_leaves leaves = ⟨leaves⟩ := by
  simp [reconstruct_from_raw_leaves, foldl_append_raw, new]

theorem leaves_reconstruct_from_raw_leaves (leaves : List Bytes) : (reconstruct_from_raw_leaves leaves).leaves = leaves := by
  rw [reconstruct_from_raw_leaves_eq]

theorem toNat_len {tree : AppendOnlyTree} (h : tree.leaves.length < 2 ^ 64) :
    tree.len.toNat = tree.leaves.length := UInt64.toNat_ofNat_of_lt' h

variable [CtMerkle]

def root (tree : AppendOnlyTree) : RootHash := ⟨CtMerkle.root tree.leaves, tree.len⟩

/-- Builds an inclusion proof for the leaf at `leaf_index`. Below the length of a tree in
memory the index fits in a `usize`. -/
def prove_inclusion (tree : AppendOnlyTree) (leaf_index : UInt64) : TrustResult InclusionProof := do
  reject_if (leaf_index ≥ tree.len)
    (.MerkleTree s!"inclusion proof requested for leaf index {leaf_index} but tree has {tree.len} leaves")
  return ⟨CtMerkle.prove_inclusion tree.leaves leaf_index.toNat⟩

/-- Builds a consistency proof from the tree of size `old_size` to the current tree of
size `new_size`. -/
def prove_consistency (tree : AppendOnlyTree) (old_size new_size : UInt64) :
    TrustResult ConsistencyProof := do
  reject_if (new_size ≠ tree.len)
    (.MerkleTree (s!"consistency proof requires new_size to equal current tree length: " ++
      s!"new_size={new_size}, current_len={tree.len}"))
  reject_if (old_size = 0)
    (.MerkleTree ("consistency proof requires old_size > 0; " ++
      "RFC 6962 has no consistency proof from an empty tree"))
  reject_if (old_size > new_size)
    (.MerkleTree (s!"consistency proof old_size must be <= new_size: " ++
      s!"old_size={old_size}, new_size={new_size}"))
  return ⟨CtMerkle.prove_consistency tree.leaves (new_size - old_size).toNat⟩

section Rfc6962

variable [Sha2] [Rfc6962CtMerkle]

theorem root_eq (tree : AppendOnlyTree) :
    tree.root = ⟨rfc6962.mth sha256_hasher tree.leaves, tree.len⟩ := by
  rw [root, Rfc6962CtMerkle.root_eq]

/-- In range, an inclusion proof is the RFC 6962 audit path. -/
theorem prove_inclusion_eq_ok {tree : AppendOnlyTree} {i : UInt64} (hlen : tree.leaves.length < 2 ^ 64)
    (hi : i.toNat < tree.leaves.length) :
    tree.prove_inclusion i =
      .ok ⟨(rfc6962.path sha256_hasher i.toNat tree.leaves).flatMap U8Array.as_slice⟩ := by
  have hrange : ¬ i ≥ tree.len := by
    rw [ge_iff_le, UInt64.le_iff_toNat_le, toNat_len hlen]
    omega
  rw [prove_inclusion, reject_if_of_not hrange, ok_bind, Rfc6962CtMerkle.prove_inclusion_eq _ _ hi]
  rfl

/-- From a non-empty strict prefix, a consistency proof is the RFC 6962 one. -/
theorem prove_consistency_eq_ok {tree : AppendOnlyTree} {m : UInt64} (hlen : tree.leaves.length < 2 ^ 64)
    (hpos : 1 ≤ m.toNat) (hm : m.toNat < tree.leaves.length) :
    tree.prove_consistency m tree.len =
      .ok ⟨(rfc6962.proof sha256_hasher m.toNat tree.leaves).flatMap U8Array.as_slice⟩ := by
  have hlenNat := toNat_len hlen
  have hzero : ¬ m = 0 := by
    rintro rfl
    simp at hpos
  have hle : ¬ m > tree.len := by
    rw [gt_iff_lt, UInt64.lt_iff_toNat_lt, hlenNat]
    omega
  have hsub : (tree.len - m).toNat = tree.leaves.length - m.toNat := by
    rw [UInt64.toNat_sub_of_le, hlenNat]
    rw [UInt64.le_iff_toNat_le, hlenNat]
    exact hm.le
  rw [prove_consistency, reject_if_of_not (by simp), ok_bind, reject_if_of_not hzero, ok_bind,
    reject_if_of_not hle, ok_bind, hsub, Rfc6962CtMerkle.prove_consistency_eq _ _ hpos hm]
  rfl

end Rfc6962

end AppendOnlyTree

end lys
