import Lys.Rfc6962.Extends
import Lys.Tlog.Soundness

open rust

namespace lys

section Chain

variable [Sha2] [Base64] [Ed25519Dalek] [CtMerkle]

/-- Following a log from one root to a later one: consistency artifacts that verify, each beside the
older of its checkpoints, where each starts at the root that the one before it ended at. -/
inductive Linked (verifier : NoteVerifierKey) :
    RootHash → List (ConsistencyProofArtifact × CheckpointBody) → RootHash → Prop where
  | refl (root : RootHash) : Linked verifier root [] root
  | link {artifact : ConsistencyProofArtifact} {body_1 body_2 : CheckpointBody} {root : RootHash}
    {links : List (ConsistencyProofArtifact × CheckpointBody)}
    (h : verify_consistency_artifact artifact verifier = .ok (body_1, body_2))
    (rest : Linked verifier body_2.to_root links root) :
    Linked verifier body_1.to_root ((artifact, body_1) :: links) root

/-- What the verification of the artifacts feeds to SHA-256. -/
def chain_hash_inputs (links : List (ConsistencyProofArtifact × CheckpointBody)) : List Bytes :=
  links.flatMap fun link => consistency_hash_inputs link.1 link.2

omit [Sha2] [Base64] [Ed25519Dalek] [CtMerkle] in
/-- Nodes out of two lists are hashed from inputs out of two lists. -/
theorem map_preimage_bytes_subset {nodes nodes_1 nodes_2 : List (rfc6962.Preimage Bytes (U8Array 32))}
    {inputs_1 inputs_2 : List Bytes} (h : nodes ⊆ nodes_1 ++ nodes_2) (h_1 : nodes_1.map preimage_bytes ⊆ inputs_1)
    (h_2 : nodes_2.map preimage_bytes ⊆ inputs_2) : nodes.map preimage_bytes ⊆ inputs_1 ++ inputs_2 := by
  have hmap := List.map_subset preimage_bytes h
  rw [List.map_append] at hmap
  refine List.Subset.trans hmap (List.append_subset.mpr ⟨?_, ?_⟩)
  · exact List.Subset.trans h_1 (List.subset_append_left _ _)
  · exact List.Subset.trans h_2 (List.subset_append_right _ _)

omit [Base64] [Ed25519Dalek] [CtMerkle] in
theorem sha256Collision_of_collides_append {nodes_1 nodes_2 : List (rfc6962.Preimage Bytes (U8Array 32))}
    {inputs_1 inputs_2 : List Bytes} (h : sha256_hasher.Collides (nodes_1 ++ nodes_2))
    (h_1 : nodes_1.map preimage_bytes ⊆ inputs_1) (h_2 : nodes_2.map preimage_bytes ⊆ inputs_2) :
    Sha256Collision (inputs_1 ++ inputs_2) :=
  (sha256Collision_of_collides h).mono (map_preimage_bytes_subset (List.Subset.refl _) h_1 h_2)

variable [StandardBase64] [Rfc6962CtMerkle] {verifier verifier' : NoteVerifierKey} {root root_1 root_2 : RootHash}
  {links links_1 links_2 : List (ConsistencyProofArtifact × CheckpointBody)}

/-- The newer tree of an accepted artifact extends the older one. -/
theorem extends_of_verify_consistency_artifact {artifact : ConsistencyProofArtifact} {body_1 body_2 : CheckpointBody}
    (h : verify_consistency_artifact artifact verifier = .ok (body_1, body_2)) :
    ∃ nodes, rfc6962.Extends sha256_hasher body_1.to_root.num_leaves.toNat body_2.to_root.num_leaves.toNat
      body_1.to_root.root_hash body_2.to_root.root_hash nodes ∧
        nodes.map preimage_bytes = consistency_hash_inputs artifact body_1 := by
  obtain ⟨_, ⟨hsize_1, hsize_2⟩, hroots⟩ := roots_of_verify_consistency_artifact h
  refine ⟨_, ?_, rfl⟩
  change rfc6962.Extends sha256_hasher body_1.tree_size.toNat body_2.tree_size.toNat _ _ _
  rw [hsize_1, hsize_2]
  exact rfc6962.extends_of_roots hroots

/-- The tree at the end of a chain extends the one at its start, or the inputs of the chain collide. -/
theorem Linked.extends (h : Linked verifier root_1 links root) :
    (∃ nodes, rfc6962.Extends sha256_hasher root_1.num_leaves.toNat root.num_leaves.toNat root_1.root_hash root.root_hash
        nodes ∧ nodes.map preimage_bytes ⊆ chain_hash_inputs links) ∨ Sha256Collision (chain_hash_inputs links) := by
  induction h with
  | refl root => exact .inl ⟨[], .refl _ _, List.nil_subset _⟩
  | @link artifact body_1 body_2 root links h rest ih =>
    obtain ⟨nodes_1, hlink, hnodes_1⟩ := extends_of_verify_consistency_artifact h
    rw [chain_hash_inputs, List.flatMap_cons, ← chain_hash_inputs, ← hnodes_1]
    rcases ih with ⟨nodes_2, hrest, hnodes_2⟩ | hcoll
    · rcases hlink.trans hrest with ⟨nodes, hextends, hnodes⟩ | hcoll
      · exact .inl ⟨nodes, hextends, map_preimage_bytes_subset hnodes (List.Subset.refl _) hnodes_2⟩
      · exact .inr (sha256Collision_of_collides_append hcoll (List.Subset.refl _) hnodes_2)
    · exact .inr (hcoll.mono (List.subset_append_right _ _))

/-- Two chains that start at trees of one size and end at one root start at one root: views of a log
that differ are never joined again, unless SHA-256 collides on inputs that are listed. -/
theorem split_view_never_joined (h_1 : Linked verifier root_1 links_1 root) (h_2 : Linked verifier' root_2 links_2 root)
    (hsize : root_1.num_leaves = root_2.num_leaves) :
    root_1 = root_2 ∨ Sha256Collision (chain_hash_inputs links_1 ++ chain_hash_inputs links_2) := by
  rcases h_1.extends with ⟨nodes_1, hextends_1, hnodes_1⟩ | hcoll
  · rcases h_2.extends with ⟨nodes_2, hextends_2, hnodes_2⟩ | hcoll
    · rcases hextends_1.between hextends_2 (by rw [hsize]) with ⟨nodes, hextends, _⟩ | hcoll
      · rw [hsize] at hextends
        exact .inl (RootHash.ext hextends.eq hsize)
      · exact .inr (sha256Collision_of_collides_append hcoll hnodes_1 hnodes_2)
    · exact .inr (hcoll.mono (List.subset_append_right _ _))
  · exact .inr (hcoll.mono (List.subset_append_left _ _))

/-- Leaves that the starts of two chains to one root commit to are the prefix of one another, unless
SHA-256 collides on inputs that are listed. -/
theorem joined_views_comparable (h_1 : Linked verifier root_1 links_1 root) (h_2 : Linked verifier' root_2 links_2 root)
    {leaves_1 leaves_2 : List Bytes} (hlength_1 : leaves_1.length = root_1.num_leaves.toNat)
    (hmth_1 : rfc6962.mth sha256_hasher leaves_1 = root_1.root_hash)
    (hlength_2 : leaves_2.length = root_2.num_leaves.toNat)
    (hmth_2 : rfc6962.mth sha256_hasher leaves_2 = root_2.root_hash) (hle : leaves_1.length ≤ leaves_2.length) :
    leaves_1 <+: leaves_2 ∨ Sha256Collision (chain_hash_inputs links_1 ++ chain_hash_inputs links_2 ++
      (tree_hash_inputs leaves_1 ++ (tree_hash_inputs leaves_2 ++ tree_hash_inputs (leaves_2.take leaves_1.length)))) := by
  rcases h_1.extends with ⟨nodes_1, hextends_1, hnodes_1⟩ | hcoll
  · rcases h_2.extends with ⟨nodes_2, hextends_2, hnodes_2⟩ | hcoll
    · rcases hextends_1.between hextends_2 (by omega) with ⟨nodes, hextends, hnodes⟩ | hcoll
      · by_cases hempty : leaves_1.length = 0
        · rw [List.length_eq_zero_iff.mp hempty]
          exact .inl List.nil_prefix
        · rw [← hlength_1, ← hlength_2, ← hmth_1, ← hmth_2] at hextends
          rcases hextends.sound (by omega) rfl with hprefix | hcoll
          · have htake : leaves_1.length = (leaves_2.take leaves_1.length).length := by simp [hle]
            rcases rfc6962.mth_binding htake hprefix with heq | hcoll
            · exact .inl (List.prefix_iff_eq_take.mpr heq)
            · refine .inr ((sha256Collision_of_collides hcoll).mono fun input hinput => ?_)
              simp only [List.map_append, List.mem_append, tree_hash_inputs] at hinput ⊢
              tauto
          · have hinputs := map_preimage_bytes_subset hnodes hnodes_1 hnodes_2
            refine .inr ((sha256Collision_of_collides_append hcoll hinputs (List.Subset.refl _)).mono fun input hinput => ?_)
            simp only [List.mem_append, tree_hash_inputs] at hinput ⊢
            tauto
      · exact .inr ((sha256Collision_of_collides_append hcoll hnodes_1 hnodes_2).mono (List.subset_append_left _ _))
    · refine .inr (hcoll.mono fun input hinput => ?_)
      simp [hinput]
  · refine .inr (hcoll.mono fun input hinput => ?_)
    simp [hinput]

/-- A leaf that an artifact proves climbs to the root at the end of a chain. -/
theorem Linked.exists_climb {artifact : InclusionProofArtifact} {leaf : Bytes} {body : CheckpointBody}
    (hleaf : verify_inclusion_artifact artifact leaf verifier = .ok body) (h : Linked verifier body.to_root links root) :
    (artifact.leaf_index.toNat < root.num_leaves.toNat ∧ ∃ siblings,
      rfc6962.climb sha256_hasher (raw_leaf_hash leaf) artifact.leaf_index.toNat root.num_leaves.toNat siblings =
        some root.root_hash ∧
      (rfc6962.climb_preimages sha256_hasher (raw_leaf_hash leaf) artifact.leaf_index.toNat root.num_leaves.toNat
        siblings).map preimage_bytes ⊆ chain_hash_inputs links ++ inclusion_hash_inputs artifact leaf) ∨
      Sha256Collision (chain_hash_inputs links ++ inclusion_hash_inputs artifact leaf) := by
  obtain ⟨hi, hsize, hclimb⟩ := climb_of_verify_inclusion_artifact hleaf
  have hinputs : (rfc6962.climb_preimages sha256_hasher (raw_leaf_hash leaf) artifact.leaf_index.toNat
      artifact.tree_size.toNat (artifact_nodes artifact.hashes).reverse).map preimage_bytes ⊆
        inclusion_hash_inputs artifact leaf := List.subset_cons_self _ _
  rw [← hsize] at hi hclimb hinputs
  rcases h.extends with ⟨nodes, hextends, hnodes⟩ | hcoll
  · rcases hextends.exists_climb hi hclimb with ⟨siblings, hclimb', hsubset⟩ | hcoll
    · exact .inl ⟨hi.trans_le hextends.le, siblings, hclimb', map_preimage_bytes_subset hsubset hnodes hinputs⟩
    · exact .inr (sha256Collision_of_collides_append hcoll hnodes hinputs)
  · exact .inr (hcoll.mono (List.subset_append_left _ _))

/-- What clients were shown of one index, before they followed the log to one root, is one leaf,
unless SHA-256 collides on inputs that are listed. -/
theorem followed_leaf_unchanged {artifact_1 artifact_2 : InclusionProofArtifact} {leaf_1 leaf_2 : Bytes}
    {body_1 body_2 : CheckpointBody} (hleaf_1 : verify_inclusion_artifact artifact_1 leaf_1 verifier = .ok body_1)
    (hleaf_2 : verify_inclusion_artifact artifact_2 leaf_2 verifier' = .ok body_2)
    (hindex : artifact_1.leaf_index = artifact_2.leaf_index) (h_1 : Linked verifier body_1.to_root links_1 root)
    (h_2 : Linked verifier' body_2.to_root links_2 root) :
    leaf_1 = leaf_2 ∨ Sha256Collision ((chain_hash_inputs links_1 ++ inclusion_hash_inputs artifact_1 leaf_1) ++
      (chain_hash_inputs links_2 ++ inclusion_hash_inputs artifact_2 leaf_2)) := by
  rcases Linked.exists_climb hleaf_1 h_1 with ⟨hi, siblings_1, hclimb_1, hinputs_1⟩ | hcoll
  · rcases Linked.exists_climb hleaf_2 h_2 with ⟨_, siblings_2, hclimb_2, hinputs_2⟩ | hcoll
    · rw [← hindex] at hclimb_2 hinputs_2
      rcases rfc6962.climb_binding hi hclimb_1 hclimb_2 with ⟨hhash, _⟩ | hcoll
      · rcases raw_leaf_hash_eq_or_collides hhash with hleaf | hcoll
        · exact .inl hleaf
        · refine .inr ((sha256Collision_of_collides hcoll).mono fun input hinput => ?_)
          simp only [List.map_cons, List.map_nil, List.mem_cons, List.not_mem_nil, or_false] at hinput
          obtain rfl | rfl := hinput <;> simp [inclusion_hash_inputs]
      · exact .inr (sha256Collision_of_collides_append hcoll hinputs_1 hinputs_2)
    · exact .inr (hcoll.mono (List.subset_append_right _ _))
  · exact .inr (hcoll.mono (List.subset_append_left _ _))

end Chain

section

open reference

/-- The link of the two-leaf log. -/
theorem exists_link_two_leaves {verifier : NoteVerifierKey}
    (hverifier : NoteVerifierKey.new "log".toList zero_identity.public_key_bytes = .ok verifier) :
    ∃ artifact body_1, Linked verifier (⟨[[0x78]]⟩ : AppendOnlyTree).root [(artifact, body_1)]
      (⟨[[0x78], [0x79]]⟩ : AppendOnlyTree).root := by
  obtain ⟨artifact, body_1, body_2, _, hverify, ⟨_, hroot_1⟩, ⟨_, hroot_2⟩⟩ :=
    @build_consistency_artifact_eq_ok _ _ _ _ _ _ _ _ _ _ ⟨[[0x78], [0x79]]⟩ 1 (by decide) le_rfl (by decide)
      signable_leaves.1 signable_leaves.2 hverifier
  have hlink := Linked.link hverify (.refl _)
  rw [hroot_1, hroot_2] at hlink
  exact ⟨artifact, body_1, hlink⟩

theorem signable_three_leaves : Signable ⟨[[0x78], [0x79], [0x7a]]⟩ "log".toList zero_identity := by
  have h : (sign_note (CheckpointBody.encode ⟨"log".toList, 3, rfc6962.mth sha256_hasher [[0x78], [0x79], [0x7a]],
      log_name_valid⟩) "log".toList zero_identity).isOk = true := by
    decide +kernel
  obtain ⟨note, hnote⟩ := isOk_iff_exists.mp h
  exact ⟨_, note, CheckpointBody.from_root_eq_ok log_name_valid _, hnote⟩

/-- One client follows the log to its third leaf at once, the other one leaf after leaf. -/
theorem split_view_never_joined_three_leaves : ∃ verifier root_1 links_1 root_2 links_2,
    (links_1.length = 1 ∧ links_2.length = 2) ∧
    Linked verifier root_1 links_1 (⟨[[0x78], [0x79], [0x7a]]⟩ : AppendOnlyTree).root ∧
    Linked verifier root_2 links_2 (⟨[[0x78], [0x79], [0x7a]]⟩ : AppendOnlyTree).root ∧
    (root_1 = root_2 ∨ Sha256Collision (chain_hash_inputs links_1 ++ chain_hash_inputs links_2)) := by
  obtain ⟨verifier, hverifier⟩ := log_verifier
  obtain ⟨artifact, body_1, body_3, _, hverify, ⟨_, hroot_1⟩, ⟨_, hroot_3⟩⟩ :=
    @build_consistency_artifact_eq_ok _ _ _ _ _ _ _ _ _ _ ⟨[[0x78], [0x79], [0x7a]]⟩ 1 (by decide) le_rfl (by decide)
      signable_three_leaves signable_leaves.2 hverifier
  obtain ⟨first, start, middle, _, hfirst, ⟨_, hstart⟩, ⟨_, hmiddle⟩⟩ :=
    @build_consistency_artifact_eq_ok _ _ _ _ _ _ _ _ _ _ ⟨[[0x78], [0x79]]⟩ 1 (by decide) le_rfl (by decide)
      signable_leaves.1 signable_leaves.2 hverifier
  obtain ⟨second, middle', last, _, hsecond, ⟨_, hmiddle'⟩, ⟨_, hlast⟩⟩ :=
    @build_consistency_artifact_eq_ok _ _ _ _ _ _ _ _ _ _ ⟨[[0x78], [0x79], [0x7a]]⟩ 2 (by decide) (by decide) (by decide)
      signable_three_leaves signable_leaves.1 hverifier
  have hshort := Linked.link hverify (.refl _)
  have hrest := Linked.link hsecond (.refl _)
  rw [show middle'.to_root = middle.to_root from hmiddle'.trans hmiddle.symm] at hrest
  have hlong := Linked.link hfirst hrest
  rw [hroot_3] at hshort
  rw [hlast] at hlong
  have hsize : body_1.to_root.num_leaves = start.to_root.num_leaves := by
    rw [hroot_1, hstart]
    rfl
  exact ⟨verifier, _, _, _, _, ⟨rfl, rfl⟩, hshort, hlong, split_view_never_joined hshort hlong hsize⟩

/-- A client at the first leaf and one at both. -/
theorem joined_views_comparable_two_leaves :
    ∃ verifier links, Linked verifier (⟨[[0x78]]⟩ : AppendOnlyTree).root links (⟨[[0x78], [0x79]]⟩ : AppendOnlyTree).root ∧
      (([[0x78]] : List Bytes) <+: [[0x78], [0x79]] ∨ Sha256Collision (chain_hash_inputs links ++
        chain_hash_inputs [] ++ (tree_hash_inputs [[0x78]] ++ (tree_hash_inputs [[0x78], [0x79]] ++
          tree_hash_inputs [[0x78]])))) := by
  obtain ⟨verifier, hverifier⟩ := log_verifier
  obtain ⟨artifact, body_1, hlink⟩ := exists_link_two_leaves hverifier
  exact ⟨verifier, _, hlink, joined_views_comparable hlink (@Linked.refl _ _ _ _ verifier _) rfl rfl rfl rfl (by decide)⟩

/-- The first leaf, shown at both sizes. -/
theorem followed_leaf_unchanged_two_leaves :
    ∃ verifier links artifact_1 artifact_2 body_1 body_2, verify_inclusion_artifact artifact_1 [0x78] verifier = .ok body_1 ∧
      verify_inclusion_artifact artifact_2 [0x78] verifier = .ok body_2 ∧
      Linked verifier body_1.to_root links body_2.to_root ∧
      (([0x78] : Bytes) = [0x78] ∨ Sha256Collision ((chain_hash_inputs links ++ inclusion_hash_inputs artifact_1 [0x78]) ++
        (chain_hash_inputs [] ++ inclusion_hash_inputs artifact_2 [0x78]))) := by
  obtain ⟨verifier, hverifier⟩ := log_verifier
  obtain ⟨_, _, hlink⟩ := exists_link_two_leaves hverifier
  obtain ⟨old, old_body, hold, hverifyOld, _, hrootOld⟩ :=
    @build_inclusion_artifact_eq_ok _ _ _ _ _ _ _ _ _ _ ⟨[[0x78]]⟩ 0 (by decide) (by decide)
      signable_leaves.2 hverifier
  obtain ⟨new, new_body, hnew, hverifyNew, _, hrootNew⟩ :=
    @build_inclusion_artifact_eq_ok _ _ _ _ _ _ _ _ _ _ ⟨[[0x78], [0x79]]⟩ 0 (by decide) (by decide)
      signable_leaves.1 hverifier
  have hindex : old.leaf_index = new.leaf_index := by
    rw [leaf_index_of_build_inclusion_artifact hold, leaf_index_of_build_inclusion_artifact hnew]
  rw [← hrootOld, ← hrootNew] at hlink
  exact ⟨verifier, _, old, new, old_body, new_body, hverifyOld, hverifyNew, hlink,
    followed_leaf_unchanged hverifyOld hverifyNew hindex hlink (.refl _)⟩

end

end lys
