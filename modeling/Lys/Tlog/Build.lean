import Lys.Tlog.Verify
import Lys.Reference

open rust

namespace lys

/-- Chunks a proof into its 32-byte nodes, each in base64. -/
def chunk_proof_bytes [Base64] (proof_bytes : Bytes) : TrustResult (List Str) := do
  reject_if (remainder 32 proof_bytes ≠ [])
    (.LogArtifactEncoding
      s!"proof byte length {proof_bytes.length} is not a multiple of the 32-byte digest size")
  return (chunks_exact 32 proof_bytes).map Base64.encode

theorem chunk_proof_bytes_flatMap [Base64] (nodes : List (U8Array 32)) :
    chunk_proof_bytes (nodes.flatMap U8Array.as_slice) = .ok (encode_hashes nodes) := by
  rw [chunk_proof_bytes, remainder_flatten (by decide), reject_if_of_not (by simp), ok_bind,
    chunks_exact_flatten (by decide), List.map_map]
  rfl

section Root

variable [Sha2] [CtMerkle] [Rfc6962CtMerkle]

/-- A checkpoint of a tree below the bound carries its size and its Merkle tree hash. -/
theorem size_and_root_of_to_root_eq {tree : AppendOnlyTree} {body : CheckpointBody}
    (hsize : tree.leaves.length < 2 ^ 53) (h : body.to_root = tree.root) :
    body.tree_size.toNat = tree.leaves.length ∧ body.root_hash = rfc6962.mth sha256_hasher tree.leaves := by
  rw [tree.root_eq] at h
  refine ⟨?_, congrArg RootHash.root_hash h⟩
  rw [← AppendOnlyTree.toNat_len (show tree.leaves.length < 2 ^ 64 by omega)]
  exact congrArg (fun root : RootHash => root.num_leaves.toNat) h

end Root

section Verifier

variable [Sha2] [Ed25519Dalek]

/-- The verifier of the origin and identity an artifact is signed with. -/
def self_verifier (origin : Str) (identity : Ed25519Identity) : TrustResult NoteVerifierKey :=
  (NoteVerifierKey.new origin identity.public_key_bytes).mapError fun e =>
    .LogArtifactEncoding s!"could not build self-verification key: {e.to_string}"

theorem self_verifier_eq_ok {origin : Str} {identity : Ed25519Identity} {verifier : NoteVerifierKey}
    (hverifier : NoteVerifierKey.new origin identity.public_key_bytes = .ok verifier) :
    self_verifier origin identity = .ok verifier := by
  rw [self_verifier, hverifier]
  rfl

end Verifier

section Build

variable [Sha2] [Base64] [Ed25519Dalek] [CtMerkle]

/-- Builds a self-contained inclusion artifact and verifies it before returning it. -/
def build_inclusion_artifact (tree : AppendOnlyTree) (leaf_bytes : Bytes) (origin : Str)
    (identity : Ed25519Identity) (leaf_index : UInt64) : TrustResult InclusionProofArtifact := do
  let root := tree.root
  check_json_safe_tree_size root.num_leaves
  let proof ← tree.prove_inclusion leaf_index
  let hashes ← chunk_proof_bytes proof.as_bytes
  let body ← CheckpointBody.from_root origin root
  let checkpoint ← sign_note body.encode origin identity
  let artifact : InclusionProofArtifact :=
    { format := INCLUSION_PROOF_FORMAT, tree_size := root.num_leaves, leaf_index, hashes, checkpoint }
  let verifier ← self_verifier origin identity
  let _ ← (verify_inclusion_artifact artifact leaf_bytes verifier).mapError fun _ =>
    .LogArtifactEncoding ("self-verification of freshly built inclusion artifact failed " ++
      "(the supplied leaf bytes do not match the leaf at the given index, " ++
      "or the tree is internally inconsistent)")
  return artifact

/-- Builds a self-contained consistency artifact and verifies it before returning it. -/
def build_consistency_artifact (old_tree new_tree : AppendOnlyTree) (origin : Str)
    (identity : Ed25519Identity) : TrustResult ConsistencyProofArtifact := do
  let old_size := old_tree.len
  let new_size := new_tree.len
  check_json_safe_tree_size new_size
  reject_if (old_size = 0)
    (.LogArtifactEncoding ("consistency artifact requires the old tree size to be at least 1; " ++
      "RFC 6962 has no consistency proof from an empty tree"))
  reject_if (old_size ≥ new_size)
    (.LogArtifactEncoding (s!"consistency artifact requires old size strictly below new size: " ++
      s!"old={old_size}, new={new_size}"))
  let proof ← new_tree.prove_consistency old_size new_size
  let hashes ← chunk_proof_bytes proof.as_bytes
  let body_1 ← CheckpointBody.from_root origin old_tree.root
  let body_2 ← CheckpointBody.from_root origin new_tree.root
  let checkpoint_1 ← sign_note body_1.encode origin identity
  let checkpoint_2 ← sign_note body_2.encode origin identity
  let artifact : ConsistencyProofArtifact :=
    { format := CONSISTENCY_PROOF_FORMAT, tree_size_1 := old_size, tree_size_2 := new_size, hashes,
      checkpoint_1, checkpoint_2 }
  let verifier ← self_verifier origin identity
  let _ ← (verify_consistency_artifact artifact verifier).mapError fun _ =>
    .LogArtifactEncoding ("self-verification of freshly built consistency artifact failed " ++
      "(the old tree is not a prefix of the new tree)")
  return artifact

theorem leaf_index_of_build_inclusion_artifact {tree : AppendOnlyTree} {leaf : Bytes} {origin : Str}
    {identity : Ed25519Identity} {i : UInt64} {artifact : InclusionProofArtifact}
    (h : build_inclusion_artifact tree leaf origin identity i = .ok artifact) : artifact.leaf_index = i := by
  simp only [build_inclusion_artifact, bind_eq_ok_iff, pure_eq_ok_iff] at h
  obtain ⟨_, _, _, _, _, _, _, _, _, _, _, _, _, _, rfl⟩ := h
  rfl

/-- `sign_note` accepts the checkpoint body of a tree. -/
def Signable (tree : AppendOnlyTree) (origin : Str) (identity : Ed25519Identity) : Prop :=
  ∃ body note, CheckpointBody.from_root origin tree.root = .ok body ∧
    sign_note body.encode origin identity = .ok note

variable {origin : Str} {identity : Ed25519Identity} {verifier : NoteVerifierKey}

variable [StandardBase64] [GenuineEd25519]

/-- The signed checkpoint of a tree verifies as the tree's root under its origin. -/
theorem exists_checkpoint_of_signable {tree : AppendOnlyTree} (hsign : Signable tree origin identity)
    (hverifier : NoteVerifierKey.new origin identity.public_key_bytes = .ok verifier) :
    ∃ body note, CheckpointBody.from_root origin tree.root = .ok body ∧
      sign_note body.encode origin identity = .ok note ∧
      verify_checkpoint (as_bytes note) verifier = .ok body ∧ body.origin = origin ∧ body.to_root = tree.root := by
  obtain ⟨body, note, hbody, hnote⟩ := hsign
  obtain ⟨horigin, hroot⟩ := CheckpointBody.of_from_root_eq_ok hbody
  refine ⟨body, note, hbody, hnote, ?_, horigin, hroot⟩
  rw [← horigin] at hnote hverifier
  exact verify_checkpoint_sign_note hnote hverifier

variable [Rfc6962CtMerkle]

/-- Every leaf of a signable tree below the bound has an inclusion artifact that verifies. -/
theorem build_inclusion_artifact_eq_ok {tree : AppendOnlyTree} {i : UInt64}
    (hsize : tree.leaves.length < 2 ^ 53) (hi : i.toNat < tree.leaves.length)
    (hsign : Signable tree origin identity)
    (hverifier : NoteVerifierKey.new origin identity.public_key_bytes = .ok verifier) :
    ∃ artifact body, build_inclusion_artifact tree tree.leaves[i.toNat] origin identity i = .ok artifact ∧
      verify_inclusion_artifact artifact tree.leaves[i.toNat] verifier = .ok body ∧
      body.origin = origin ∧ body.to_root = tree.root := by
  obtain ⟨body, note, hbody, hnote, hcheckpoint, horigin, hroot⟩ := exists_checkpoint_of_signable hsign hverifier
  have hlen : tree.len.toNat = tree.leaves.length := AppendOnlyTree.toNat_len (by omega)
  have htree := tree.root_eq
  have hnum : tree.root.num_leaves = tree.len := rfl
  have hbodySize : body.tree_size = tree.len := congrArg RootHash.num_leaves hroot
  have hbodyRoot : body.root_hash = rfc6962.mth sha256_hasher tree.leaves := by
    rw [htree] at hroot
    exact congrArg RootHash.root_hash hroot
  have hmax : tree.len < MAX_JSON_TREE_SIZE := by
    rw [UInt64.lt_iff_toNat_lt, hlen]
    exact hsize
  have hpath := rfc6962.length_path_le (H := sha256_hasher) (i := i.toNat) (show tree.leaves.length ≤ 2 ^ 53 by omega)
  let artifact : InclusionProofArtifact :=
    { format := INCLUSION_PROOF_FORMAT, tree_size := tree.len, leaf_index := i
      hashes := encode_hashes (rfc6962.path sha256_hasher i.toNat tree.leaves), checkpoint := note }
  have hverify : verify_inclusion_artifact artifact tree.leaves[i.toNat] verifier = .ok body := by
    rw [verify_inclusion_artifact_eq_ok_iff]
    refine ⟨rfl, hmax, ?_, ?_, hcheckpoint, hbodySize, _, rfl, ?_⟩
    · rw [UInt64.lt_iff_toNat_lt]
      exact hlen ▸ hi
    · simp only [artifact, encode_hashes, List.length_map, MAX_INCLUSION_HASHES]
      omega
    · rw [hbodyRoot, hbodySize, hlen]
      exact rfc6962.verify_path_path hi
  refine ⟨artifact, body, ?_, hverify, horigin, hroot⟩
  simp only [build_inclusion_artifact, hnum, check_json_safe_tree_size_eq_ok (hlen ▸ hsize), ok_bind,
    AppendOnlyTree.prove_inclusion_eq_ok (show tree.leaves.length < 2 ^ 64 by omega) hi,
    chunk_proof_bytes_flatMap, hbody, hnote, self_verifier_eq_ok hverifier]
  rw [show verify_inclusion_artifact _ _ verifier = .ok body from hverify]
  rfl

/-- Every non-empty strict prefix of a signable tree below the bound, if signable, has a
consistency artifact that verifies. -/
theorem build_consistency_artifact_eq_ok {tree : AppendOnlyTree} {m : Nat} (hsize : tree.leaves.length < 2 ^ 53)
    (hpos : 1 ≤ m) (hm : m < tree.leaves.length) (hsign : Signable tree origin identity)
    (hsignOld : Signable ⟨tree.leaves.take m⟩ origin identity)
    (hverifier : NoteVerifierKey.new origin identity.public_key_bytes = .ok verifier) :
    ∃ artifact body_1 body_2,
      build_consistency_artifact ⟨tree.leaves.take m⟩ tree origin identity = .ok artifact ∧
      verify_consistency_artifact artifact verifier = .ok (body_1, body_2) ∧
      (body_1.origin = origin ∧ body_1.to_root = (⟨tree.leaves.take m⟩ : AppendOnlyTree).root) ∧
      (body_2.origin = origin ∧ body_2.to_root = tree.root) := by
  obtain ⟨body_1, note_1, hbody_1, hnote_1, hcheckpoint_1, horigin_1, hroot_1⟩ :=
    exists_checkpoint_of_signable hsignOld hverifier
  obtain ⟨body_2, note_2, hbody_2, hnote_2, hcheckpoint_2, horigin_2, hroot_2⟩ :=
    exists_checkpoint_of_signable hsign hverifier
  have htake : (tree.leaves.take m).length = m := by simp [hm.le]
  have hlenOld : (⟨tree.leaves.take m⟩ : AppendOnlyTree).len.toNat = m := by
    rw [AppendOnlyTree.toNat_len (by rw [htake]; omega), htake]
  have hlen : tree.len.toNat = tree.leaves.length := AppendOnlyTree.toNat_len (by omega)
  have hsize_1 : body_1.tree_size = (⟨tree.leaves.take m⟩ : AppendOnlyTree).len := congrArg RootHash.num_leaves hroot_1
  have hsize_2 : body_2.tree_size = tree.len := congrArg RootHash.num_leaves hroot_2
  have hrootOld : body_1.root_hash = rfc6962.mth sha256_hasher (tree.leaves.take m) :=
    congrArg RootHash.root_hash (hroot_1.trans (AppendOnlyTree.root_eq _))
  have hrootNew : body_2.root_hash = rfc6962.mth sha256_hasher tree.leaves :=
    congrArg RootHash.root_hash (hroot_2.trans (AppendOnlyTree.root_eq _))
  have hzero : (⟨tree.leaves.take m⟩ : AppendOnlyTree).len ≠ 0 := by
    rw [ne_eq, ← UInt64.toNat_inj, hlenOld]
    exact Nat.one_le_iff_ne_zero.mp hpos
  have hlt : (⟨tree.leaves.take m⟩ : AppendOnlyTree).len < tree.len := by
    rw [UInt64.lt_iff_toNat_lt, hlenOld, hlen]
    exact hm
  have hmax : tree.len < MAX_JSON_TREE_SIZE := by
    rw [UInt64.lt_iff_toNat_lt, hlen]
    exact hsize
  have hproof := @rfc6962.length_subproof_le _ _ sha256_hasher tree.leaves m 53 true (by omega)
  let artifact : ConsistencyProofArtifact :=
    { format := CONSISTENCY_PROOF_FORMAT, tree_size_1 := (⟨tree.leaves.take m⟩ : AppendOnlyTree).len
      tree_size_2 := tree.len, hashes := encode_hashes (rfc6962.proof sha256_hasher m tree.leaves)
      checkpoint_1 := note_1, checkpoint_2 := note_2 }
  have hverify : verify_consistency_artifact artifact verifier = .ok (body_1, body_2) := by
    rw [verify_consistency_artifact_eq_ok_iff]
    refine ⟨rfl, ⟨hzero, hlt, hmax⟩, ?_, hcheckpoint_1, hcheckpoint_2, ⟨hsize_1, hsize_2⟩, _, rfl, ?_⟩
    · simp only [artifact, encode_hashes, List.length_map, MAX_CONSISTENCY_HASHES, rfc6962.proof]
      omega
    · rw [hrootOld, hrootNew, hsize_1, hsize_2, hlenOld, hlen]
      exact rfc6962.verify_proof_proof hpos hm
  refine ⟨artifact, body_1, body_2, ?_, hverify, ⟨horigin_1, hroot_1⟩, ⟨horigin_2, hroot_2⟩⟩
  have hnot : ¬ (⟨tree.leaves.take m⟩ : AppendOnlyTree).len ≥ tree.len := by
    rwa [ge_iff_le, UInt64.not_le]
  have hprove := @AppendOnlyTree.prove_consistency_eq_ok _ _ _ tree (⟨tree.leaves.take m⟩ : AppendOnlyTree).len
    (by omega) (by omega) (by omega)
  rw [hlenOld] at hprove
  simp only [build_consistency_artifact, check_json_safe_tree_size_eq_ok (hlen ▸ hsize), ok_bind,
    reject_if_of_not hzero, reject_if_of_not hnot, hprove, chunk_proof_bytes_flatMap, hbody_1, hbody_2,
    hnote_1, hnote_2, self_verifier_eq_ok hverifier]
  rw [show verify_consistency_artifact _ verifier = .ok (body_1, body_2) from hverify]
  rfl

/-- Completeness of the proof artifacts: below the JSON bound, every leaf and every
non-empty strict prefix of a signable log has an artifact that is built and verifies, with
the signed sizes and Merkle tree hashes. -/
theorem proof_artifacts_complete (leaves : List Bytes) (hsize : leaves.length < 2 ^ 53)
    (origin : Str) (identity : Ed25519Identity)
    (hsign : Signable (AppendOnlyTree.reconstruct_from_raw_leaves leaves) origin identity) :
    ∃ verifier, NoteVerifierKey.new origin identity.public_key_bytes = .ok verifier ∧
      (∀ (i : UInt64) (hi : i.toNat < leaves.length), ∃ artifact body,
        build_inclusion_artifact (AppendOnlyTree.reconstruct_from_raw_leaves leaves) leaves[i.toNat] origin
          identity i = .ok artifact ∧
        verify_inclusion_artifact artifact leaves[i.toNat] verifier = .ok body ∧
        body.origin = origin ∧ body.tree_size.toNat = leaves.length ∧
        body.root_hash = rfc6962.mth sha256_hasher leaves) ∧
      (∀ m, 1 ≤ m → m < leaves.length →
        Signable (AppendOnlyTree.reconstruct_from_raw_leaves (leaves.take m)) origin identity →
        ∃ artifact body_1 body_2,
          build_consistency_artifact (AppendOnlyTree.reconstruct_from_raw_leaves (leaves.take m))
            (AppendOnlyTree.reconstruct_from_raw_leaves leaves) origin identity = .ok artifact ∧
          verify_consistency_artifact artifact verifier = .ok (body_1, body_2) ∧
          (body_1.origin = origin ∧ body_1.tree_size.toNat = m ∧
            body_1.root_hash = rfc6962.mth sha256_hasher (leaves.take m)) ∧
          (body_2.origin = origin ∧ body_2.tree_size.toNat = leaves.length ∧
            body_2.root_hash = rfc6962.mth sha256_hasher leaves)) := by
  simp only [AppendOnlyTree.reconstruct_from_raw_leaves_eq] at hsign ⊢
  obtain ⟨body, _, hbody, _⟩ := id hsign
  obtain ⟨horigin, _⟩ := CheckpointBody.of_from_root_eq_ok hbody
  obtain ⟨verifier, hverifier, _⟩ :=
    @NoteVerifierKey.new_eq_ok _ origin identity.public_key_bytes (horigin ▸ body.origin_valid)
  refine ⟨verifier, hverifier, ?_, ?_⟩
  · intro i hi
    obtain ⟨artifact, body, hbuild, hverify, horigin, hroot⟩ :=
      @build_inclusion_artifact_eq_ok _ _ _ _ _ _ _ _ _ _ ⟨leaves⟩ i hsize hi hsign hverifier
    exact ⟨artifact, body, hbuild, hverify, horigin, size_and_root_of_to_root_eq hsize hroot⟩
  · intro m hpos hm hsignOld
    obtain ⟨artifact, body_1, body_2, hbuild, hverify, ⟨horigin_1, hroot_1⟩, ⟨horigin_2, hroot_2⟩⟩ :=
      @build_consistency_artifact_eq_ok _ _ _ _ _ _ _ _ _ _ ⟨leaves⟩ m hsize hpos hm hsign hsignOld hverifier
    have htake : (leaves.take m).length = m := by simp [hm.le]
    obtain ⟨hsize_1, hmth_1⟩ := size_and_root_of_to_root_eq (by rw [htake]; omega) hroot_1
    exact ⟨artifact, body_1, body_2, hbuild, hverify, ⟨horigin_1, hsize_1.trans htake, hmth_1⟩,
      ⟨horigin_2, size_and_root_of_to_root_eq hsize hroot_2⟩⟩

end Build

section

open reference

theorem log_name_valid : validate_note_name "log".toList = .ok () := by
  decide

theorem signable_leaves :
    Signable ⟨[[0x78], [0x79]]⟩ "log".toList zero_identity ∧ Signable ⟨[[0x78]]⟩ "log".toList zero_identity := by
  constructor
  · have h : (sign_note (CheckpointBody.encode ⟨"log".toList, 2, rfc6962.mth sha256_hasher [[0x78], [0x79]],
        log_name_valid⟩) "log".toList zero_identity).isOk = true := by
      decide +kernel
    obtain ⟨note, hnote⟩ := isOk_iff_exists.mp h
    exact ⟨_, note, CheckpointBody.from_root_eq_ok log_name_valid _, hnote⟩
  · have h : (sign_note (CheckpointBody.encode ⟨"log".toList, 1, rfc6962.mth sha256_hasher [[0x78]],
        log_name_valid⟩) "log".toList zero_identity).isOk = true := by
      decide +kernel
    obtain ⟨note, hnote⟩ := isOk_iff_exists.mp h
    exact ⟨_, note, CheckpointBody.from_root_eq_ok log_name_valid _, hnote⟩

theorem proof_artifacts_complete_two_leaves :
    ∃ verifier, NoteVerifierKey.new "log".toList zero_identity.public_key_bytes = .ok verifier ∧
      ∃ artifact body_1 body_2,
        build_consistency_artifact (AppendOnlyTree.reconstruct_from_raw_leaves [[0x78]])
          (AppendOnlyTree.reconstruct_from_raw_leaves [[0x78], [0x79]]) "log".toList zero_identity =
            .ok artifact ∧
        verify_consistency_artifact artifact verifier = .ok (body_1, body_2) ∧
        (body_1.origin = "log".toList ∧ body_1.tree_size.toNat = 1 ∧
          body_1.root_hash = rfc6962.mth sha256_hasher [[0x78]]) ∧
        (body_2.origin = "log".toList ∧ body_2.tree_size.toNat = 2 ∧
          body_2.root_hash = rfc6962.mth sha256_hasher [[0x78], [0x79]]) := by
  obtain ⟨verifier, hverifier, _, hconsistency⟩ := proof_artifacts_complete [[0x78], [0x79]] (by decide)
    "log".toList zero_identity signable_leaves.1
  exact ⟨verifier, hverifier, hconsistency 1 le_rfl (by decide) signable_leaves.2⟩

end

end lys
