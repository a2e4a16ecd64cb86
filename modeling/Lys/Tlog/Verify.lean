import Lys.Checkpoint.Note

open rust

namespace lys

def INCLUSION_PROOF_FORMAT : Str := "lys/log-inclusion-proof/v1".toList

def CONSISTENCY_PROOF_FORMAT : Str := "lys/log-consistency-proof/v1".toList

/-- Exclusive bound on the tree sizes of artifacts: the JSON number precision. -/
def MAX_JSON_TREE_SIZE : UInt64 := (1 : UInt64) <<< 53

/-- Cap on inclusion-path nodes. -/
def MAX_INCLUSION_HASHES : Nat := 64

/-- Cap on consistency-proof nodes. -/
def MAX_CONSISTENCY_HASHES : Nat := 128

/-- Self-contained inclusion-proof artifact. -/
structure InclusionProofArtifact where
  format : Str
  tree_size : UInt64
  leaf_index : UInt64
  hashes : List Str
  checkpoint : Str
deriving DecidableEq

/-- Self-contained consistency-proof artifact. -/
structure ConsistencyProofArtifact where
  format : Str
  tree_size_1 : UInt64
  tree_size_2 : UInt64
  hashes : List Str
  checkpoint_1 : Str
  checkpoint_2 : Str
deriving DecidableEq

/-- The `2 ^ 53` refusal guard. -/
def check_json_safe_tree_size (tree_size : UInt64) : TrustResult Unit :=
  reject_if (tree_size ≥ MAX_JSON_TREE_SIZE)
    (.LogArtifactEncoding (s!"tree size {tree_size} is at or beyond the JSON-safe bound 2^53 " ++
      s!"({MAX_JSON_TREE_SIZE})"))

theorem toNat_lt_of_lt_max {size : UInt64} (h : size < MAX_JSON_TREE_SIZE) : size.toNat < 2 ^ 53 := by
  have hmax : MAX_JSON_TREE_SIZE.toNat = 2 ^ 53 := by decide
  rw [← hmax]
  exact UInt64.lt_iff_toNat_lt.mp h

theorem check_json_safe_tree_size_eq_ok {size : UInt64} (h : size.toNat < 2 ^ 53) :
    check_json_safe_tree_size size = .ok () := by
  apply reject_if_of_not
  rw [ge_iff_le, UInt64.not_le, UInt64.lt_iff_toNat_lt]
  exact h

/-- Accepted sizes lie in the domain of consistency verification. -/
theorem consistency_sizes {m n : UInt64} (h : m ≠ 0 ∧ m < n ∧ n < MAX_JSON_TREE_SIZE) :
    n.toNat < 2 ^ 63 ∧ 1 ≤ m.toNat ∧ m < n := by
  have hmax := toNat_lt_of_lt_max h.2.2
  have hzero : m.toNat ≠ 0 := fun hzero => h.1 (UInt64.toNat_inj.mp hzero)
  exact ⟨by omega, by omega, h.2.1⟩

theorem dvd_length_flatMap (nodes : List (U8Array 32)) : 32 ∣ (nodes.flatMap U8Array.as_slice).length := by
  rw [length_flatMap_as_slice]
  exact Nat.dvd_mul_left 32 _

section Decode

variable [Base64]

/-- Decodes artifact hash entries behind `proof_bytes`. -/
def decode_hashes (proof_bytes : Bytes) : List Str → TrustResult Bytes
  | [] => return proof_bytes
  | entry :: hashes => do
    let decoded ← (Base64.decode entry).mapError fun _ => .LogArtifactVerification
    reject_if (decoded.length ≠ 32) .LogArtifactVerification
    decode_hashes (proof_bytes ++ decoded) hashes

/-- The artifact entries of proof nodes. -/
def encode_hashes (nodes : List (U8Array 32)) : List Str := nodes.map fun node => Base64.encode node.as_slice

/-- Hash entries decode exactly as the nodes they are the base64 of. -/
theorem decode_hashes_eq_ok_iff [StandardBase64] {proof_bytes bytes : Bytes} {hashes : List Str} :
    decode_hashes proof_bytes hashes = .ok bytes ↔
      ∃ nodes, hashes = encode_hashes nodes ∧ bytes = proof_bytes ++ nodes.flatMap U8Array.as_slice := by
  induction hashes generalizing proof_bytes with
  | nil =>
    simp only [decode_hashes, pure_eq_ok_iff]
    constructor
    · rintro rfl
      exact ⟨[], rfl, by simp⟩
    · rintro ⟨nodes, hnodes, rfl⟩
      simp [List.map_eq_nil_iff.mp hnodes.symm]
  | cons entry hashes ih =>
    simp only [decode_hashes, bind_eq_ok_iff, mapError_eq_ok_iff, StandardBase64.decode_eq_ok_iff,
      reject_if_eq_ok_iff, ne_eq, Decidable.not_not, ih]
    constructor
    · rintro ⟨decoded, rfl, _, hlength, nodes, rfl, rfl⟩
      exact ⟨⟨decoded, hlength⟩ :: nodes, by simp [encode_hashes, StandardBase64.encode_eq], by simp⟩
    · rintro ⟨nodes, hnodes, rfl⟩
      cases nodes with
      | nil => cases hnodes
      | cons node nodes =>
        obtain ⟨rfl, rfl⟩ := List.cons.inj hnodes
        exact ⟨node.as_slice, StandardBase64.encode_eq _, (), node.length_eq, nodes, rfl, by simp⟩

end Decode

variable [Sha2] [Base64] [Ed25519Dalek] [CtMerkle]

/-- Verifies an untrusted inclusion artifact against the raw leaf bytes. -/
def verify_inclusion_artifact (artifact : InclusionProofArtifact) (leaf_bytes : Bytes)
    (verifier : NoteVerifierKey) : TrustResult CheckpointBody := do
  reject_if (artifact.format ≠ INCLUSION_PROOF_FORMAT) .LogArtifactVerification
  reject_if (artifact.tree_size ≥ MAX_JSON_TREE_SIZE) .LogArtifactVerification
  reject_if (artifact.leaf_index ≥ artifact.tree_size) .LogArtifactVerification
  reject_if (artifact.hashes.length > MAX_INCLUSION_HASHES) .LogArtifactVerification
  let proof_bytes ← decode_hashes [] artifact.hashes
  let body ← (verify_checkpoint (as_bytes artifact.checkpoint) verifier).mapError fun _ =>
    .LogArtifactVerification
  reject_if (body.tree_size ≠ artifact.tree_size) .LogArtifactVerification
  let proof ← (InclusionProof.try_from_bytes proof_bytes).mapError fun _ => .LogArtifactVerification
  (verify_inclusion_raw body.to_root leaf_bytes artifact.leaf_index proof).mapError fun _ =>
    .LogArtifactVerification
  return body

/-- Verifies an untrusted consistency artifact; returns the old and the new checkpoint. -/
def verify_consistency_artifact (artifact : ConsistencyProofArtifact) (verifier : NoteVerifierKey) :
    TrustResult (CheckpointBody × CheckpointBody) := do
  reject_if (artifact.format ≠ CONSISTENCY_PROOF_FORMAT) .LogArtifactVerification
  reject_if (artifact.tree_size_1 = 0 ∨ artifact.tree_size_1 ≥ artifact.tree_size_2 ∨
    artifact.tree_size_2 ≥ MAX_JSON_TREE_SIZE) .LogArtifactVerification
  reject_if (artifact.hashes.length > MAX_CONSISTENCY_HASHES) .LogArtifactVerification
  let proof_bytes ← decode_hashes [] artifact.hashes
  let body_1 ← (verify_checkpoint (as_bytes artifact.checkpoint_1) verifier).mapError fun _ =>
    .LogArtifactVerification
  let body_2 ← (verify_checkpoint (as_bytes artifact.checkpoint_2) verifier).mapError fun _ =>
    .LogArtifactVerification
  reject_if (body_1.tree_size ≠ artifact.tree_size_1 ∨ body_2.tree_size ≠ artifact.tree_size_2)
    .LogArtifactVerification
  let proof ← (ConsistencyProof.try_from_bytes proof_bytes).mapError fun _ => .LogArtifactVerification
  (verify_consistency body_1.to_root body_2.to_root proof).mapError fun _ => .LogArtifactVerification
  return (body_1, body_2)

variable [StandardBase64] [Rfc6962CtMerkle]

/-- What `verify_inclusion_artifact` accepts: a checkpoint of the artifact's size whose
root is recomputed from the leaf along the artifact's nodes. -/
theorem verify_inclusion_artifact_eq_ok_iff {artifact : InclusionProofArtifact} {leaf : Bytes}
    {verifier : NoteVerifierKey} {body : CheckpointBody} :
    verify_inclusion_artifact artifact leaf verifier = .ok body ↔
      artifact.format = INCLUSION_PROOF_FORMAT ∧ artifact.tree_size < MAX_JSON_TREE_SIZE ∧
      artifact.leaf_index < artifact.tree_size ∧ artifact.hashes.length ≤ MAX_INCLUSION_HASHES ∧
      verify_checkpoint (as_bytes artifact.checkpoint) verifier = .ok body ∧
      body.tree_size = artifact.tree_size ∧
      ∃ nodes, artifact.hashes = encode_hashes nodes ∧
        rfc6962.verify_path sha256_hasher body.root_hash (sha256_hasher.leaf leaf) artifact.leaf_index.toNat
          body.tree_size.toNat nodes = true := by
  simp only [verify_inclusion_artifact, bind_eq_ok_iff, reject_if_eq_ok_iff, mapError_eq_ok_iff,
    decode_hashes_eq_ok_iff, InclusionProof.try_from_bytes_eq_ok_iff, List.nil_append, ne_eq,
    Decidable.not_not, ge_iff_le, gt_iff_lt, UInt64.not_le, not_lt, pure_eq_ok_iff]
  constructor
  · rintro ⟨_, hformat, _, hmax, _, hindex, _, hcap, _, ⟨nodes, hnodes, rfl⟩, body, hcheckpoint, _, hsize, _,
      ⟨rfl, _⟩, _, hverify, rfl⟩
    have hbound : body.to_root.num_leaves.toNat < 2 ^ 63 := by
      have := toNat_lt_of_lt_max (hsize ▸ hmax)
      change body.tree_size.toNat < 2 ^ 63
      omega
    obtain ⟨siblings, hsiblings, hpath⟩ := (verify_inclusion_raw_eq_ok_iff hbound).mp hverify
    rw [← flatMap_as_slice_injective (by decide) hsiblings] at hpath
    exact ⟨hformat, hmax, hindex, hcap, hcheckpoint, hsize, nodes, hnodes, hpath⟩
  · rintro ⟨hformat, hmax, hindex, hcap, hcheckpoint, hsize, nodes, hnodes, hpath⟩
    have hbound : body.to_root.num_leaves.toNat < 2 ^ 63 := by
      have := toNat_lt_of_lt_max (hsize ▸ hmax)
      change body.tree_size.toNat < 2 ^ 63
      omega
    exact ⟨(), hformat, (), hmax, (), hindex, (), hcap, _, ⟨nodes, hnodes, rfl⟩, body, hcheckpoint, (), hsize,
      _, ⟨rfl, dvd_length_flatMap nodes⟩, (), (verify_inclusion_raw_eq_ok_iff hbound).mpr ⟨nodes, rfl, hpath⟩, rfl⟩

/-- What `verify_consistency_artifact` accepts: two checkpoints of the artifact's sizes
whose roots are recomputed from the artifact's nodes. -/
theorem verify_consistency_artifact_eq_ok_iff {artifact : ConsistencyProofArtifact}
    {verifier : NoteVerifierKey} {body_1 body_2 : CheckpointBody} :
    verify_consistency_artifact artifact verifier = .ok (body_1, body_2) ↔
      artifact.format = CONSISTENCY_PROOF_FORMAT ∧
      (artifact.tree_size_1 ≠ 0 ∧ artifact.tree_size_1 < artifact.tree_size_2 ∧
        artifact.tree_size_2 < MAX_JSON_TREE_SIZE) ∧
      artifact.hashes.length ≤ MAX_CONSISTENCY_HASHES ∧
      verify_checkpoint (as_bytes artifact.checkpoint_1) verifier = .ok body_1 ∧
      verify_checkpoint (as_bytes artifact.checkpoint_2) verifier = .ok body_2 ∧
      (body_1.tree_size = artifact.tree_size_1 ∧ body_2.tree_size = artifact.tree_size_2) ∧
      ∃ nodes, artifact.hashes = encode_hashes nodes ∧
        rfc6962.verify_proof sha256_hasher body_1.root_hash body_2.root_hash body_1.tree_size.toNat
          body_2.tree_size.toNat nodes = true := by
  simp only [verify_consistency_artifact, bind_eq_ok_iff, reject_if_eq_ok_iff, mapError_eq_ok_iff,
    decode_hashes_eq_ok_iff, ConsistencyProof.try_from_bytes_eq_ok_iff, List.nil_append, ne_eq, not_or,
    Decidable.not_not, ge_iff_le, gt_iff_lt, UInt64.not_le, not_lt, pure_eq_ok_iff, Prod.mk.injEq]
  constructor
  · rintro ⟨_, hformat, _, hsizes, _, hcap, _, ⟨nodes, hnodes, rfl⟩, body_1, hcheckpoint_1, body_2,
      hcheckpoint_2, _, hsize, _, ⟨rfl, _⟩, _, hverify, rfl, rfl⟩
    obtain ⟨hbound, hpos, hlt⟩ := consistency_sizes (hsize.1 ▸ hsize.2 ▸ hsizes)
    obtain ⟨hashes, hhashes, hproof⟩ := (verify_consistency_eq_ok_iff hbound hpos hlt).mp hverify
    rw [← flatMap_as_slice_injective (by decide) hhashes] at hproof
    exact ⟨hformat, hsizes, hcap, hcheckpoint_1, hcheckpoint_2, hsize, nodes, hnodes, hproof⟩
  · rintro ⟨hformat, hsizes, hcap, hcheckpoint_1, hcheckpoint_2, hsize, nodes, hnodes, hproof⟩
    obtain ⟨hbound, hpos, hlt⟩ := consistency_sizes (hsize.1 ▸ hsize.2 ▸ hsizes)
    exact ⟨(), hformat, (), hsizes, (), hcap, _, ⟨nodes, hnodes, rfl⟩, body_1, hcheckpoint_1, body_2,
      hcheckpoint_2, (), hsize, _, ⟨rfl, dvd_length_flatMap nodes⟩, (),
      (verify_consistency_eq_ok_iff hbound hpos hlt).mpr ⟨nodes, rfl, hproof⟩, rfl, rfl⟩

end lys
