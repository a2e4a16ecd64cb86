import Lys.Tlog.Build

open rust

namespace lys

section Inputs

variable [Sha2] [Base64]

/-- The proof nodes that an artifact's hash entries decode to. -/
def artifact_nodes (hashes : List Str) : List (U8Array 32) :=
  hashes.filterMap fun entry => (Base64.decode entry).toOption.bind (U8Array.try_from 32)

/-- What the verification of an inclusion artifact feeds to SHA-256: the leaf and the
nodes on its way to the root. -/
def inclusion_hash_inputs (artifact : InclusionProofArtifact) (leaf : Bytes) : List Bytes :=
  (.leaf leaf :: rfc6962.climb_preimages sha256_hasher (raw_leaf_hash leaf) artifact.leaf_index.toNat
    artifact.tree_size.toNat (artifact_nodes artifact.hashes).reverse).map preimage_bytes

/-- What the verification of a consistency artifact feeds to SHA-256: the nodes on the
way to the two roots. -/
def consistency_hash_inputs (artifact : ConsistencyProofArtifact) (body_1 : CheckpointBody) : List Bytes :=
  (rfc6962.roots_preimages sha256_hasher body_1.root_hash artifact.tree_size_1.toNat
    artifact.tree_size_2.toNat true (artifact_nodes artifact.hashes).reverse).map preimage_bytes

omit [Base64] in
/-- What computing the Merkle tree hash of known leaves feeds to SHA-256. -/
def tree_hash_inputs (leaves : List Bytes) : List Bytes :=
  (rfc6962.mth_preimages sha256_hasher leaves).map preimage_bytes

omit [Sha2] in
theorem artifact_nodes_encode_hashes [StandardBase64] (nodes : List (U8Array 32)) :
    artifact_nodes (encode_hashes nodes) = nodes := by
  have hdecode : ∀ node : U8Array 32, Base64.decode (Base64.encode node.as_slice) = .ok node.as_slice := by
    intro node
    rw [StandardBase64.decode_eq_ok_iff, StandardBase64.encode_eq]
  rw [artifact_nodes, encode_hashes, List.filterMap_map]
  simp [Function.comp_def, hdecode, Except.toOption]

end Inputs

/-- Equal leaf hashes have equal leaves, or the two leaf preimages collide. -/
theorem raw_leaf_hash_eq_or_collides [Sha2] {leaf leaf' : Bytes} (h : raw_leaf_hash leaf = raw_leaf_hash leaf') :
    leaf = leaf' ∨ sha256_hasher.Collides [.leaf leaf, .leaf leaf'] := by
  by_cases heq : leaf = leaf'
  · exact .inl heq
  · exact .inr ⟨.leaf leaf, by simp, .leaf leaf', by simp, by simpa using heq, h⟩

section Artifacts

variable [Sha2] [Base64] [Ed25519Dalek] [CtMerkle] [StandardBase64] [Rfc6962CtMerkle]

/-- An accepted inclusion artifact climbs from its leaf to the root of its checkpoint. -/
theorem climb_of_verify_inclusion_artifact {artifact : InclusionProofArtifact} {leaf : Bytes}
    {verifier : NoteVerifierKey} {body : CheckpointBody}
    (h : verify_inclusion_artifact artifact leaf verifier = .ok body) :
    artifact.leaf_index.toNat < artifact.tree_size.toNat ∧ body.tree_size = artifact.tree_size ∧
      rfc6962.climb sha256_hasher (raw_leaf_hash leaf) artifact.leaf_index.toNat artifact.tree_size.toNat
        (artifact_nodes artifact.hashes).reverse = some body.root_hash := by
  obtain ⟨_, _, hindex, _, _, hsize, nodes, hnodes, hpath⟩ := verify_inclusion_artifact_eq_ok_iff.mp h
  simp only [rfc6962.verify_path, hsize, Bool.and_eq_true, decide_eq_true_eq] at hpath
  refine ⟨hpath.1, hsize, ?_⟩
  rw [hnodes, artifact_nodes_encode_hashes]
  exact hpath.2

/-- An accepted consistency artifact recomputes the roots of its two checkpoints. -/
theorem roots_of_verify_consistency_artifact {artifact : ConsistencyProofArtifact}
    {verifier : NoteVerifierKey} {body_1 body_2 : CheckpointBody}
    (h : verify_consistency_artifact artifact verifier = .ok (body_1, body_2)) :
    (1 ≤ artifact.tree_size_1.toNat ∧ artifact.tree_size_1.toNat < artifact.tree_size_2.toNat) ∧
      (body_1.tree_size = artifact.tree_size_1 ∧ body_2.tree_size = artifact.tree_size_2) ∧
      rfc6962.roots sha256_hasher body_1.root_hash artifact.tree_size_1.toNat artifact.tree_size_2.toNat
        true (artifact_nodes artifact.hashes).reverse = some (body_1.root_hash, body_2.root_hash) := by
  obtain ⟨_, _, _, _, _, hsize, nodes, hnodes, hproof⟩ := verify_consistency_artifact_eq_ok_iff.mp h
  simp only [rfc6962.verify_proof, hsize.1, hsize.2, Bool.and_eq_true, decide_eq_true_eq] at hproof
  refine ⟨hproof.1, hsize, ?_⟩
  rw [hnodes, artifact_nodes_encode_hashes]
  exact hproof.2

/-- A leaf proved under two checkpoints that a consistency artifact links is one leaf:
two different leaves at one index give an explicit SHA-256 collision. -/
theorem linked_leaf_unchanged {verifier : NoteVerifierKey} {link : ConsistencyProofArtifact}
    {body_1 body_2 : CheckpointBody} {old new : InclusionProofArtifact} {leaf_1 leaf_2 : Bytes}
    {old_body new_body : CheckpointBody} {i : UInt64}
    (hlink : verify_consistency_artifact link verifier = .ok (body_1, body_2))
    (hi : i < body_1.tree_size) (hindex : old.leaf_index = i ∧ new.leaf_index = i)
    (hold : verify_inclusion_artifact old leaf_1 verifier = .ok old_body)
    (hnew : verify_inclusion_artifact new leaf_2 verifier = .ok new_body)
    (hbody_1 : old_body.tree_size = body_1.tree_size ∧ old_body.root_hash = body_1.root_hash)
    (hbody_2 : new_body.tree_size = body_2.tree_size ∧ new_body.root_hash = body_2.root_hash) :
    leaf_1 = leaf_2 ∨
      Sha256Collision (consistency_hash_inputs link body_1 ++
        (inclusion_hash_inputs old leaf_1 ++ inclusion_hash_inputs new leaf_2)) := by
  obtain ⟨_, ⟨hlinkSize_1, hlinkSize_2⟩, hroots⟩ := roots_of_verify_consistency_artifact hlink
  obtain ⟨_, holdSize, hclimb_1⟩ := climb_of_verify_inclusion_artifact hold
  obtain ⟨_, hnewSize, hclimb_2⟩ := climb_of_verify_inclusion_artifact hnew
  have hsize_1 : old.tree_size = link.tree_size_1 := by rw [← holdSize, hbody_1.1, hlinkSize_1]
  have hsize_2 : new.tree_size = link.tree_size_2 := by rw [← hnewSize, hbody_2.1, hlinkSize_2]
  have hlt : i.toNat < link.tree_size_1.toNat := by
    rw [← hlinkSize_1]
    exact UInt64.lt_iff_toNat_lt.mp hi
  rw [hindex.1, hsize_1, hbody_1.2] at hclimb_1
  rw [hindex.2, hsize_2, hbody_2.2] at hclimb_2
  rw [consistency_hash_inputs, inclusion_hash_inputs, inclusion_hash_inputs, hindex.1, hindex.2, hsize_1,
    hsize_2, ← List.map_append, ← List.map_append]
  rcases rfc6962.climb_eq_of_roots hlt hroots hclimb_1 hclimb_2 with hhash | hcoll
  · rcases raw_leaf_hash_eq_or_collides hhash with hleaf | hcoll
    · exact .inl hleaf
    · exact .inr (sha256Collision_of_collides (hcoll.mono (by simp)))
  · refine .inr (sha256Collision_of_collides (hcoll.mono fun p hp => ?_))
    simp only [List.mem_append, List.mem_cons] at hp ⊢
    tauto

/-- Whatever leaves the newer checkpoint commits to, the older checkpoint of an accepted
consistency artifact commits to their first `body_1.tree_size`, and to no other leaves,
unless SHA-256 collides on inputs that are listed. -/
theorem consistency_sound {verifier : NoteVerifierKey} {artifact : ConsistencyProofArtifact}
    {body_1 body_2 : CheckpointBody}
    (h : verify_consistency_artifact artifact verifier = .ok (body_1, body_2)) :
    (body_1.origin = verifier.name ∧ body_2.origin = verifier.name) ∧
      (1 ≤ body_1.tree_size ∧ body_1.tree_size < body_2.tree_size) ∧
      ∀ leaves : List Bytes, leaves.length = body_2.tree_size.toNat →
        rfc6962.mth sha256_hasher leaves = body_2.root_hash →
        (rfc6962.mth sha256_hasher (leaves.take body_1.tree_size.toNat) = body_1.root_hash ∨
          Sha256Collision (consistency_hash_inputs artifact body_1 ++
            (tree_hash_inputs leaves ++ tree_hash_inputs (leaves.take body_1.tree_size.toNat)))) ∧
        ∀ old_leaves : List Bytes, old_leaves.length = body_1.tree_size.toNat →
          rfc6962.mth sha256_hasher old_leaves = body_1.root_hash →
          old_leaves = leaves.take body_1.tree_size.toNat ∨
            Sha256Collision (consistency_hash_inputs artifact body_1 ++ (tree_hash_inputs leaves ++
              (tree_hash_inputs (leaves.take body_1.tree_size.toNat) ++ tree_hash_inputs old_leaves))) := by
  obtain ⟨⟨hpos, hlt⟩, ⟨hsize_1, hsize_2⟩, hroots⟩ := roots_of_verify_consistency_artifact h
  obtain ⟨_, _, _, hcheckpoint_1, hcheckpoint_2, _⟩ := verify_consistency_artifact_eq_ok_iff.mp h
  refine ⟨⟨origin_eq_of_verify_checkpoint_eq_ok hcheckpoint_1,
    origin_eq_of_verify_checkpoint_eq_ok hcheckpoint_2⟩, ?_, ?_⟩
  · rw [hsize_1, hsize_2, UInt64.le_iff_toNat_le, UInt64.lt_iff_toNat_lt]
    exact ⟨hpos, hlt⟩
  intro leaves hlength hmth
  rw [hsize_1]
  rw [hsize_2] at hlength
  have hsound : rfc6962.mth sha256_hasher (leaves.take artifact.tree_size_1.toNat) = body_1.root_hash ∨
      Sha256Collision (consistency_hash_inputs artifact body_1 ++
        (tree_hash_inputs leaves ++ tree_hash_inputs (leaves.take artifact.tree_size_1.toNat))) := by
    rw [← hlength, ← hmth] at hroots
    rcases rfc6962.roots_sound hpos (by omega) hroots with hold | hcoll
    · exact .inl hold.symm
    · rw [hlength] at hcoll
      have := sha256Collision_of_collides hcoll
      simp only [List.map_append] at this
      exact .inr this
  refine ⟨hsound, ?_⟩
  intro old_leaves holdLength holdMth
  rcases hsound with hsound | hcoll
  · have htake : old_leaves.length = (leaves.take artifact.tree_size_1.toNat).length := by
      rw [List.length_take, holdLength]
      omega
    rcases rfc6962.mth_binding htake (holdMth.trans hsound.symm) with heq | hcoll
    · exact .inl heq
    · refine .inr ((sha256Collision_of_collides hcoll).mono fun input hinput => ?_)
      simp only [List.map_append, List.mem_append, tree_hash_inputs] at hinput ⊢
      tauto
  · refine .inr (hcoll.mono fun input hinput => ?_)
    simp only [List.mem_append] at hinput ⊢
    tauto

end Artifacts

section

open reference

theorem log_verifier :
    ∃ verifier, NoteVerifierKey.new "log".toList zero_identity.public_key_bytes = .ok verifier := by
  obtain ⟨verifier, hverifier, _⟩ := @NoteVerifierKey.new_eq_ok _ _ zero_identity.public_key_bytes log_name_valid
  exact ⟨verifier, hverifier⟩

/-- The first leaf of the two-leaf log, proved in both of its trees. -/
theorem linked_leaf_unchanged_two_leaves :
    ∃ link old new body_1,
      build_consistency_artifact ⟨[[0x78]]⟩ ⟨[[0x78], [0x79]]⟩ "log".toList zero_identity = .ok link ∧
      build_inclusion_artifact ⟨[[0x78]]⟩ [0x78] "log".toList zero_identity 0 = .ok old ∧
      build_inclusion_artifact ⟨[[0x78], [0x79]]⟩ [0x78] "log".toList zero_identity 0 = .ok new ∧
      (([0x78] : Bytes) = [0x78] ∨ Sha256Collision (consistency_hash_inputs link body_1 ++
        (inclusion_hash_inputs old [0x78] ++ inclusion_hash_inputs new [0x78]))) := by
  obtain ⟨verifier, hverifier⟩ := log_verifier
  obtain ⟨link, body_1, body_2, hlink, hverify, ⟨_, hroot_1⟩, ⟨_, hroot_2⟩⟩ :=
    @build_consistency_artifact_eq_ok _ _ _ _ _ _ _ _ _ _ ⟨[[0x78], [0x79]]⟩ 1 (by decide) le_rfl (by decide)
      signable_leaves.1 signable_leaves.2 hverifier
  obtain ⟨old, old_body, hold, hverifyOld, _, hrootOld⟩ :=
    @build_inclusion_artifact_eq_ok _ _ _ _ _ _ _ _ _ _ ⟨[[0x78]]⟩ 0 (by decide) (by decide)
      signable_leaves.2 hverifier
  obtain ⟨new, new_body, hnew, hverifyNew, _, hrootNew⟩ :=
    @build_inclusion_artifact_eq_ok _ _ _ _ _ _ _ _ _ _ ⟨[[0x78], [0x79]]⟩ 0 (by decide) (by decide)
      signable_leaves.1 hverifier
  have hsize : (0 : UInt64) < body_1.tree_size := by
    rw [show body_1.tree_size = 1 from congrArg RootHash.num_leaves hroot_1]
    decide
  have hsame_1 : old_body.to_root = body_1.to_root := hrootOld.trans hroot_1.symm
  have hsame_2 : new_body.to_root = body_2.to_root := hrootNew.trans hroot_2.symm
  exact ⟨link, old, new, body_1, hlink, hold, hnew,
    linked_leaf_unchanged hverify hsize ⟨leaf_index_of_build_inclusion_artifact hold,
      leaf_index_of_build_inclusion_artifact hnew⟩ hverifyOld hverifyNew
      ⟨congrArg RootHash.num_leaves hsame_1, congrArg RootHash.root_hash hsame_1⟩
      ⟨congrArg RootHash.num_leaves hsame_2, congrArg RootHash.root_hash hsame_2⟩⟩

/-- The two checkpoints of the two-leaf log. -/
theorem consistency_sound_two_leaves :
    ∃ (verifier : NoteVerifierKey) (artifact : ConsistencyProofArtifact) (body_1 body_2 : CheckpointBody),
      build_consistency_artifact ⟨[[0x78]]⟩ ⟨[[0x78], [0x79]]⟩ "log".toList zero_identity = .ok artifact ∧
      (body_1.origin = verifier.name ∧ body_2.origin = verifier.name) ∧
      (1 ≤ body_1.tree_size ∧ body_1.tree_size < body_2.tree_size) ∧
      (rfc6962.mth sha256_hasher (([[0x78], [0x79]] : List Bytes).take body_1.tree_size.toNat) = body_1.root_hash ∨
        Sha256Collision (consistency_hash_inputs artifact body_1 ++ (tree_hash_inputs [[0x78], [0x79]] ++
          tree_hash_inputs (([[0x78], [0x79]] : List Bytes).take body_1.tree_size.toNat)))) := by
  obtain ⟨verifier, hverifier⟩ := log_verifier
  obtain ⟨artifact, body_1, body_2, hbuild, hverify, _, ⟨_, hroot_2⟩⟩ :=
    @build_consistency_artifact_eq_ok _ _ _ _ _ _ _ _ _ _ ⟨[[0x78], [0x79]]⟩ 1 (by decide) le_rfl (by decide)
      signable_leaves.1 signable_leaves.2 hverifier
  obtain ⟨horigin, hsizes, hsound⟩ := consistency_sound hverify
  refine ⟨verifier, artifact, body_1, body_2, hbuild, horigin, hsizes, (hsound [[0x78], [0x79]] ?_ ?_).1⟩
  · rw [show body_2.tree_size = 2 from congrArg RootHash.num_leaves hroot_2]
    rfl
  · exact (congrArg RootHash.root_hash hroot_2).symm

end

end lys
