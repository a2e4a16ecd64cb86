import Lys.Checkpoint.Cosignature
import Lys.Tlog.Soundness

open rust

namespace lys

section Binding

variable [Sha2] [Base64] [Ed25519Dalek] [CtMerkle] [StandardBase64] [Rfc6962CtMerkle]

/-- An accepted artifact lists its nodes in their canonical text. -/
theorem hashes_eq_of_verify_inclusion_artifact {artifact : InclusionProofArtifact} {leaf : Bytes}
    {verifier : NoteVerifierKey} {body : CheckpointBody}
    (h : verify_inclusion_artifact artifact leaf verifier = .ok body) :
    artifact.hashes = encode_hashes (artifact_nodes artifact.hashes) := by
  obtain ⟨_, _, _, _, _, _, nodes, hnodes, _⟩ := verify_inclusion_artifact_eq_ok_iff.mp h
  rw [hnodes, artifact_nodes_encode_hashes]

theorem hashes_eq_of_verify_consistency_artifact {artifact : ConsistencyProofArtifact}
    {verifier : NoteVerifierKey} {body_1 body_2 : CheckpointBody}
    (h : verify_consistency_artifact artifact verifier = .ok (body_1, body_2)) :
    artifact.hashes = encode_hashes (artifact_nodes artifact.hashes) := by
  obtain ⟨_, _, _, _, _, _, nodes, hnodes, _⟩ := verify_consistency_artifact_eq_ok_iff.mp h
  rw [hnodes, artifact_nodes_encode_hashes]

/-- Two accepted inclusion artifacts for one index of one tree prove one leaf with one list
of hashes, or the inputs of their verification collide. -/
theorem inclusion_hashes_unique {verifier : NoteVerifierKey} {artifact artifact' : InclusionProofArtifact}
    {leaf leaf' : Bytes} {body body' : CheckpointBody}
    (h : verify_inclusion_artifact artifact leaf verifier = .ok body)
    (h' : verify_inclusion_artifact artifact' leaf' verifier = .ok body')
    (hindex : artifact.leaf_index = artifact'.leaf_index) (hsize : body.tree_size = body'.tree_size)
    (hroot : body.root_hash = body'.root_hash) :
    (leaf = leaf' ∧ artifact.hashes = artifact'.hashes) ∨
      Sha256Collision (inclusion_hash_inputs artifact leaf ++ inclusion_hash_inputs artifact' leaf') := by
  obtain ⟨hi, hbodySize, hclimb⟩ := climb_of_verify_inclusion_artifact h
  obtain ⟨_, hbodySize', hclimb'⟩ := climb_of_verify_inclusion_artifact h'
  have hsame : artifact'.tree_size = artifact.tree_size := by rw [← hbodySize', ← hsize, hbodySize]
  rw [← hindex, hsame, ← hroot] at hclimb'
  rw [inclusion_hash_inputs, inclusion_hash_inputs, ← hindex, hsame, ← List.map_append]
  rcases rfc6962.climb_binding hi hclimb hclimb' with ⟨hhash, hnodes⟩ | hcoll
  · rcases raw_leaf_hash_eq_or_collides hhash with hleaf | hcoll
    · refine .inl ⟨hleaf, ?_⟩
      rw [hashes_eq_of_verify_inclusion_artifact h, hashes_eq_of_verify_inclusion_artifact h',
        List.reverse_injective hnodes]
    · exact .inr (sha256Collision_of_collides (hcoll.mono (by simp)))
  · refine .inr (sha256Collision_of_collides (hcoll.mono fun p hp => ?_))
    simp only [List.mem_append, List.mem_cons] at hp ⊢
    tauto

/-- Two accepted consistency artifacts between the same two trees have one list of hashes,
or the inputs of their verification collide. -/
theorem consistency_hashes_unique {verifier : NoteVerifierKey} {artifact artifact' : ConsistencyProofArtifact}
    {body_1 body_2 body_1' body_2' : CheckpointBody}
    (h : verify_consistency_artifact artifact verifier = .ok (body_1, body_2))
    (h' : verify_consistency_artifact artifact' verifier = .ok (body_1', body_2'))
    (hsize_1 : body_1.tree_size = body_1'.tree_size) (hsize_2 : body_2.tree_size = body_2'.tree_size)
    (hroot_2 : body_2.root_hash = body_2'.root_hash) :
    artifact.hashes = artifact'.hashes ∨
      Sha256Collision (consistency_hash_inputs artifact body_1 ++ consistency_hash_inputs artifact' body_1') := by
  obtain ⟨⟨hpos, _⟩, ⟨hbody_1, hbody_2⟩, hroots⟩ := roots_of_verify_consistency_artifact h
  obtain ⟨_, ⟨hbody_1', hbody_2'⟩, hroots'⟩ := roots_of_verify_consistency_artifact h'
  have hsame_1 : artifact'.tree_size_1 = artifact.tree_size_1 := by rw [← hbody_1', ← hsize_1, hbody_1]
  have hsame_2 : artifact'.tree_size_2 = artifact.tree_size_2 := by rw [← hbody_2', ← hsize_2, hbody_2]
  rw [hsame_1, hsame_2, ← hroot_2] at hroots'
  rw [consistency_hash_inputs, consistency_hash_inputs, hsame_1, hsame_2, ← List.map_append]
  rcases rfc6962.roots_binding hpos hroots hroots' with ⟨_, hnodes⟩ | hcoll
  · refine .inl ?_
    rw [hashes_eq_of_verify_consistency_artifact h, hashes_eq_of_verify_consistency_artifact h',
      List.reverse_injective hnodes]
  · exact .inr (sha256Collision_of_collides hcoll)

/-- Accepted artifacts are binding and non-malleable: index, tree size and root determine the
leaf and the texts of the hash list of an inclusion artifact, the sizes and roots determine
the texts of the hash list of a consistency artifact, unless SHA-256 collides on inputs of
the verifications. -/
theorem artifacts_binding (verifier : NoteVerifierKey) :
    (∀ (artifact artifact' : InclusionProofArtifact) (leaf leaf' : Bytes) (body body' : CheckpointBody),
      verify_inclusion_artifact artifact leaf verifier = .ok body →
      verify_inclusion_artifact artifact' leaf' verifier = .ok body' →
      artifact.leaf_index = artifact'.leaf_index → body.tree_size = body'.tree_size →
      body.root_hash = body'.root_hash →
      (leaf = leaf' ∧ artifact.hashes = artifact'.hashes) ∨
        Sha256Collision (inclusion_hash_inputs artifact leaf ++ inclusion_hash_inputs artifact' leaf')) ∧
    (∀ (artifact artifact' : ConsistencyProofArtifact) (body_1 body_2 body_1' body_2' : CheckpointBody),
      verify_consistency_artifact artifact verifier = .ok (body_1, body_2) →
      verify_consistency_artifact artifact' verifier = .ok (body_1', body_2') →
      body_1.tree_size = body_1'.tree_size → body_2.tree_size = body_2'.tree_size →
      body_1.root_hash = body_1'.root_hash → body_2.root_hash = body_2'.root_hash →
      artifact.hashes = artifact'.hashes ∨
        Sha256Collision (consistency_hash_inputs artifact body_1 ++ consistency_hash_inputs artifact' body_1')) := by
  constructor
  · intro artifact artifact' leaf leaf' body body' h h' hindex hsize hroot
    exact inclusion_hashes_unique h h' hindex hsize hroot
  · intro artifact artifact' body_1 body_2 body_1' body_2' h h' hsize_1 hsize_2 _ hroot_2
    exact consistency_hashes_unique h h' hsize_1 hsize_2 hroot_2

end Binding

section

open reference

theorem exists_of_any_toOption {ε α : Type} {result : Except ε α} {p : α → Bool} (h : result.toOption.any p = true) :
    ∃ a, result = .ok a ∧ p a = true := by
  cases result with
  | error e => cases h
  | ok a => exact ⟨a, rfl, h⟩

/-- A checkpoint with the signature line of another name behind its own. -/
def cosigned (note : Str) : Str := note ++ b_line ++ ['\n']

def inclusion_of_first : TrustResult InclusionProofArtifact :=
  build_inclusion_artifact ⟨[[0x78], [0x79]]⟩ [0x78] "log".toList zero_identity 0

def consistency_of_both : TrustResult ConsistencyProofArtifact :=
  build_consistency_artifact ⟨[[0x78]]⟩ ⟨[[0x78], [0x79]]⟩ "log".toList zero_identity

/-- The artifacts of the two-leaf log, and others with cosigned checkpoints. -/
theorem artifacts_binding_two_leaves : ∃ verifier : NoteVerifierKey,
    (∃ artifact artifact' body body', artifact ≠ artifact' ∧
      verify_inclusion_artifact artifact [0x78] verifier = .ok body ∧
      verify_inclusion_artifact artifact' [0x78] verifier = .ok body' ∧
      ((([0x78] : Bytes) = [0x78] ∧ artifact.hashes = artifact'.hashes) ∨
        Sha256Collision (inclusion_hash_inputs artifact [0x78] ++ inclusion_hash_inputs artifact' [0x78]))) ∧
    ∃ artifact artifact' body_1 body_2 body_1' body_2', artifact ≠ artifact' ∧
      verify_consistency_artifact artifact verifier = .ok (body_1, body_2) ∧
      verify_consistency_artifact artifact' verifier = .ok (body_1', body_2') ∧
      (artifact.hashes = artifact'.hashes ∨
        Sha256Collision (consistency_hash_inputs artifact body_1 ++ consistency_hash_inputs artifact' body_1')) := by
  have haccepted : (NoteVerifierKey.new "log".toList zero_identity.public_key_bytes).toOption.any (fun verifier =>
      (inclusion_of_first.toOption.any fun artifact =>
        (verify_inclusion_artifact artifact [0x78] verifier).toOption.any fun body =>
          (verify_inclusion_artifact { artifact with checkpoint := cosigned artifact.checkpoint } [0x78] verifier).toOption.any
            fun body' => decide (cosigned artifact.checkpoint ≠ artifact.checkpoint ∧ body.tree_size = body'.tree_size ∧
              body.root_hash = body'.root_hash)) &&
      consistency_of_both.toOption.any fun artifact =>
        (verify_consistency_artifact artifact verifier).toOption.any fun bodies =>
          (verify_consistency_artifact { artifact with checkpoint_2 := cosigned artifact.checkpoint_2 } verifier).toOption.any
            fun bodies' => decide (cosigned artifact.checkpoint_2 ≠ artifact.checkpoint_2 ∧
              bodies.1.tree_size = bodies'.1.tree_size ∧ bodies.2.tree_size = bodies'.2.tree_size ∧
              bodies.1.root_hash = bodies'.1.root_hash ∧ bodies.2.root_hash = bodies'.2.root_hash)) = true := by
    decide +kernel
  obtain ⟨verifier, _, haccepted⟩ := exists_of_any_toOption haccepted
  obtain ⟨hinclusion, hconsistency⟩ := (Bool.and_eq_true _ _).mp haccepted
  refine ⟨verifier, ?_, ?_⟩
  · obtain ⟨artifact, _, hinclusion⟩ := exists_of_any_toOption hinclusion
    obtain ⟨body, hverify, hinclusion⟩ := exists_of_any_toOption hinclusion
    obtain ⟨body', hverify', hsame⟩ := exists_of_any_toOption hinclusion
    obtain ⟨hne, hsize, hroot⟩ := of_decide_eq_true hsame
    exact ⟨_, _, body, body', fun heq => hne (congrArg InclusionProofArtifact.checkpoint heq).symm, hverify, hverify',
      (artifacts_binding verifier).1 _ _ _ _ _ _ hverify hverify' rfl hsize hroot⟩
  · obtain ⟨artifact, _, hconsistency⟩ := exists_of_any_toOption hconsistency
    obtain ⟨⟨body_1, body_2⟩, hverify, hconsistency⟩ := exists_of_any_toOption hconsistency
    obtain ⟨⟨body_1', body_2'⟩, hverify', hsame⟩ := exists_of_any_toOption hconsistency
    obtain ⟨hne, hsize_1, hsize_2, hroot_1, hroot_2⟩ := of_decide_eq_true hsame
    exact ⟨_, _, body_1, body_2, body_1', body_2',
      fun heq => hne (congrArg ConsistencyProofArtifact.checkpoint_2 heq).symm, hverify, hverify',
      (artifacts_binding verifier).2 _ _ _ _ _ _ hverify hverify' hsize_1 hsize_2 hroot_1 hroot_2⟩

end

end lys
