import Lys.Log.Layout
import Lys.Log.Reference
import Lys.Tlog.Soundness

open rust effect posix

namespace lys

section Tamper

variable [Sha2] [Base64] [CtMerkle] [Rfc6962CtMerkle] [RustFmt] [BuildProfile] [SerdeJson LogConfig]
  [SerdeJson LogState] {Who Event : Type} {who : Who} {dir : Path}

/-- Whatever happened under `leaves/`, a directory that opens gives the leaves that its state
pins and at most one more, unless SHA-256 collides on inputs of the two trees. -/
theorem tampered_leaves_detected {w w' : World Who Event} {leaves : List Bytes} {size : UInt64}
    {choices : List Choice} {store : LogStore} (hsize : size.toNat = leaves.length)
    (hpins : StatePins w.fs.view dir size (rfc6962.mth sha256_hasher leaves))
    (hstate : w'.fs.view (state_path dir) = w.fs.view (state_path dir))
    (hopen : (run who (LogStore.openLog dir) choices w').outcome = some (.done store)) :
    leaves <+: store.leaves ∧ store.leaves.length ≤ leaves.length + 1 ∨
      Sha256Collision (tree_hash_inputs leaves ++ tree_hash_inputs (store.leaves.take leaves.length)) := by
  obtain ⟨size', root, hfound, hmatch⟩ := found_of_open hopen
  have hpins' : StatePins w.fs.view dir size' root := by
    obtain ⟨bytes, root_hash, hfile, hparse, hroot⟩ := hfound.state
    exact ⟨bytes, root_hash, hstate.symm.trans hfile, hparse, hroot⟩
  obtain ⟨rfl, rfl⟩ := hpins.unique hpins'
  have hlength : (store.leaves.take leaves.length).length = leaves.length ∧
      store.leaves.length ≤ leaves.length + 1 := by
    rw [List.length_take]
    obtain ⟨hlength, _⟩ | ⟨hlength, _⟩ := hmatch <;> omega
  have hroots : rfc6962.mth sha256_hasher leaves = rfc6962.mth sha256_hasher (store.leaves.take leaves.length) := by
    obtain ⟨hlength, hroot⟩ | ⟨_, hroot⟩ := hmatch
    · rw [Rfc6962CtMerkle.root_eq] at hroot
      rw [← hsize, ← hlength, List.take_length, hroot]
    · rw [Rfc6962CtMerkle.root_eq, hsize] at hroot
      exact hroot.symm
  obtain hsame | hcollides := rfc6962.mth_binding hlength.1.symm hroots
  · exact .inl ⟨hsame ▸ List.take_prefix .., hlength.2⟩
  · rw [tree_hash_inputs, tree_hash_inputs, ← List.map_append]
    exact .inr (sha256Collision_of_collides hcollides)

end Tamper

section

open reference

theorem tampered_leaves_detected_extra_leaf :
    ∃ store, (run () (LogStore.openLog log_dir) [.proceed, .proceed, .proceed, .lists [leaf_entry 1, leaf_entry 0],
        .proceed, .proceed, .proceed, .proceed, .proceed, .stores 84, .proceed] extra_leaf).outcome = some (.done store) ∧
      ([[0x78]] <+: store.leaves ∧ store.leaves.length ≤ [([0x78] : Bytes)].length + 1 ∨
        Sha256Collision (tree_hash_inputs [[0x78]] ++ tree_hash_inputs (store.leaves.take [([0x78] : Bytes)].length))) := by
  have hopen : leaves_of (run () (LogStore.openLog log_dir) [.proceed, .proceed, .proceed,
      .lists [leaf_entry 1, leaf_entry 0], .proceed, .proceed, .proceed, .proceed, .proceed, .stores 84, .proceed]
      extra_leaf).outcome = some [[0x78], [0x79]] := by decide +kernel
  obtain ⟨store, hstore, _⟩ := exists_of_leaves_of hopen
  have hpins : StatePins one_leaf.fs.view log_dir 1 (rfc6962.mth sha256_hasher [[0x78]]) := by
    refine @statePins_of_stateBytes _ _ _ _ _ _ ⟨rfc6962.mth sha256_hasher [[0x78]], 1⟩ _ rfl ?_
    decide +kernel
  have hstate : extra_leaf.fs.view (state_path log_dir) = one_leaf.fs.view (state_path log_dir) := by decide +kernel
  exact ⟨store, hstore, tampered_leaves_detected rfl hpins hstate hstore⟩

end

end lys
