import Lys.Merkle.Tree
import Lys.Reference

open rust

namespace lys

section Run

variable {L : Type}

/-- One append of a run. A leaf that does not serialize leaves the tree as it is, and
`none` is the panic of a full tree. -/
def append_step (append : AppendOnlyTree → L → TrustResult (AppendOnlyTree × UInt64)) (tree : AppendOnlyTree)
    (leaf : L) : Option AppendOnlyTree :=
  match append tree leaf with
  | .error _ => some tree
  | .ok (tree, _) => if tree.leaves.length ≤ MAX_LEAVES then some tree else none

def append_run (append : AppendOnlyTree → L → TrustResult (AppendOnlyTree × UInt64)) (tree : AppendOnlyTree)
    (leaves : List L) : Option AppendOnlyTree :=
  leaves.foldlM (append_step append) tree

/-- The leaves of a run that were appended. -/
def appended (append : AppendOnlyTree → L → TrustResult (AppendOnlyTree × UInt64)) (leaves : List L) : List L :=
  leaves.filter fun leaf => (append .new leaf).isOk

end Run

/-- `other` behaves like the crate wherever the crate does not panic. -/
structure AgreesWhereDefined (crate other : CtMerkle) : Prop where
  prove_inclusion : ∀ leaves i, i < leaves.length → other.prove_inclusion leaves i = crate.prove_inclusion leaves i
  prove_consistency : ∀ leaves num_additions, num_additions < leaves.length →
    other.prove_consistency leaves num_additions = crate.prove_consistency leaves num_additions

/-- What a third party verifies with the published roots of a tree at two moments of its
run of appends and the bytes of the proofs, and that the tree asks the crate for nothing it
panics on. -/
structure ExternallyVerifiable {L : Type} [crate : CtMerkle]
    (append : AppendOnlyTree → L → TrustResult (AppendOnlyTree × UInt64))
    (verify : RootHash → L → UInt64 → InclusionProof → TrustResult Unit) (leaves later : List L)
    (old current : AppendOnlyTree) : Prop where
  parts : ∀ root : RootHash, RootHash.from_parts root.to_parts.1 root.to_parts.2 = root
  len_old : old.len.toNat = (appended append leaves).length
  len_current : current.len.toNat = (appended append (leaves ++ later)).length
  inclusion_ok_iff : ∀ i, (current.prove_inclusion i).isOk = true ↔ i < current.len
  inclusion_verifies : ∀ (i : UInt64) leaf, (appended append (leaves ++ later))[i.toNat]? = some leaf →
    ∃ proof received, current.prove_inclusion i = .ok proof ∧
      InclusionProof.try_from_bytes proof.as_bytes = .ok received ∧
      verify (RootHash.from_parts current.root.to_parts.1 current.root.to_parts.2) leaf i received = .ok ()
  consistency_ok_iff : ∀ a b, (current.prove_consistency a b).isOk = true ↔ 1 ≤ a ∧ a ≤ b ∧ b = current.len
  consistency_verifies : 1 ≤ old.len → ∃ proof received, current.prove_consistency old.len current.len = .ok proof ∧
    ConsistencyProof.try_from_bytes proof.as_bytes = .ok received ∧
    verify_consistency (RootHash.from_parts old.root.to_parts.1 old.root.to_parts.2)
      (RootHash.from_parts current.root.to_parts.1 current.root.to_parts.2) received = .ok ()
  no_panic : ∀ other, AgreesWhereDefined crate other →
    (∀ i, @AppendOnlyTree.prove_inclusion other current i = current.prove_inclusion i) ∧
      ∀ a b, @AppendOnlyTree.prove_consistency other current a b = current.prove_consistency a b

namespace AppendOnlyTree

variable [CtMerkle]

/-- Inclusion proofs exist for the leaves of the tree. -/
theorem isOk_prove_inclusion_iff {tree : AppendOnlyTree} {i : UInt64} :
    (tree.prove_inclusion i).isOk = true ↔ i < tree.len := by
  rw [isOk_iff_exists, prove_inclusion]
  simp only [bind_eq_ok_iff, reject_if_eq_ok_iff, ge_iff_le, UInt64.not_le, pure_eq_ok_iff]
  constructor
  · rintro ⟨_, _, hlt, _⟩
    exact hlt
  · intro hlt
    exact ⟨_, (), hlt, rfl⟩

/-- Consistency proofs exist from the non-empty sizes up to the tree's own size. -/
theorem isOk_prove_consistency_iff {tree : AppendOnlyTree} {a b : UInt64} :
    (tree.prove_consistency a b).isOk = true ↔ 1 ≤ a ∧ a ≤ b ∧ b = tree.len := by
  have hpos : ¬ a = 0 ↔ 1 ≤ a := by
    rw [UInt64.le_iff_toNat_le, ← UInt64.toNat_inj]
    change ¬ a.toNat = 0 ↔ 1 ≤ a.toNat
    omega
  rw [isOk_iff_exists, prove_consistency]
  simp only [bind_eq_ok_iff, reject_if_eq_ok_iff, ne_eq, Decidable.not_not, gt_iff_lt, UInt64.not_lt,
    pure_eq_ok_iff, hpos]
  constructor
  · rintro ⟨_, _, rfl, _, hone, _, hle, _⟩
    exact ⟨hone, hle, rfl⟩
  · rintro ⟨hone, hle, rfl⟩
    exact ⟨_, (), rfl, (), hone, (), hle, rfl⟩

omit [CtMerkle] in
/-- The tree calls the crate where it does not panic. -/
theorem prove_eq_of_agreesWhereDefined {crate other : CtMerkle} {tree : AppendOnlyTree}
    (hlen : tree.leaves.length < 2 ^ 64) (h : AgreesWhereDefined crate other) :
    (∀ i, @prove_inclusion other tree i = @prove_inclusion crate tree i) ∧
      ∀ a b, @prove_consistency other tree a b = @prove_consistency crate tree a b := by
  have hlenNat := toNat_len hlen
  constructor
  · intro i
    by_cases hi : i ≥ tree.len
    · simp only [prove_inclusion, reject_if, if_pos hi, error_bind]
    · have hdomain : i.toNat < tree.leaves.length := by
        rw [ge_iff_le, UInt64.not_le, UInt64.lt_iff_toNat_lt, hlenNat] at hi
        exact hi
      simp only [prove_inclusion, h.prove_inclusion _ _ hdomain]
  · intro a b
    by_cases hb : b ≠ tree.len
    · simp only [prove_consistency, reject_if, if_pos hb, error_bind]
    by_cases hzero : a = 0
    · simp only [prove_consistency, reject_if, if_pos hzero, error_bind]
    by_cases hle : a > b
    · simp only [prove_consistency, reject_if, if_pos hle, error_bind]
    have hdomain : (b - a).toNat < tree.leaves.length := by
      rw [ne_eq, Decidable.not_not] at hb
      rw [gt_iff_lt, UInt64.not_lt] at hle
      have hne : a.toNat ≠ 0 := fun h => hzero (UInt64.toNat_inj.mp h)
      have hbNat : b.toNat = tree.leaves.length := hb ▸ hlenNat
      rw [UInt64.toNat_sub_of_le _ _ hle, hbNat]
      rw [UInt64.le_iff_toNat_le, hbNat] at hle
      omega
    simp only [prove_consistency, h.prove_consistency _ _ hdomain]

end AppendOnlyTree

section Encoding

variable {L : Type} [CtMerkle]

/-- Appending and verifying go through one encoding of the leaves. -/
structure EncodesWith (append : AppendOnlyTree → L → TrustResult (AppendOnlyTree × UInt64))
    (verify : RootHash → L → UInt64 → InclusionProof → TrustResult Unit) (encode : L → TrustResult Bytes) : Prop where
  append_eq : ∀ tree leaf, append tree leaf = (encode leaf).map tree.append_raw
  verify_eq : ∀ root leaf i proof, verify root leaf i proof = encode leaf >>= fun bytes =>
    verify_inclusion_raw root bytes i proof

variable {append : AppendOnlyTree → L → TrustResult (AppendOnlyTree × UInt64)}
variable {verify : RootHash → L → UInt64 → InclusionProof → TrustResult Unit} {encode : L → TrustResult Bytes}

/-- A step appends the encoded bytes of its leaf, if there are any, below the bound. -/
theorem leaves_of_append_step (h : EncodesWith append verify encode) {tree tree' : AppendOnlyTree} {leaf : L}
    (hbound : tree.leaves.length ≤ MAX_LEAVES) (hstep : append_step append tree leaf = some tree') :
    tree'.leaves = tree.leaves ++ (encode leaf).toOption.toList ∧ tree'.leaves.length ≤ MAX_LEAVES := by
  rw [append_step, h.append_eq] at hstep
  cases hencode : encode leaf with
  | error e =>
    rw [hencode] at hstep
    obtain rfl := Option.some.inj hstep
    exact ⟨by simp [Except.toOption], hbound⟩
  | ok bytes =>
    rw [hencode] at hstep
    simp only [Except.map, AppendOnlyTree.append_raw, Option.ite_none_right_eq_some, Option.some.injEq] at hstep
    obtain ⟨hroom, rfl⟩ := hstep
    exact ⟨rfl, hroom⟩

/-- The bytes a run appends, in order. -/
theorem leaves_of_append_run (h : EncodesWith append verify encode) {leaves : List L} {tree tree' : AppendOnlyTree}
    (hbound : tree.leaves.length ≤ MAX_LEAVES) (hrun : append_run append tree leaves = some tree') :
    tree'.leaves = tree.leaves ++ leaves.filterMap (fun leaf => (encode leaf).toOption) ∧
      tree'.leaves.length ≤ MAX_LEAVES := by
  induction leaves generalizing tree with
  | nil =>
    obtain rfl := Option.some.inj hrun
    exact ⟨by simp, hbound⟩
  | cons leaf leaves ih =>
    rw [append_run, List.foldlM_cons] at hrun
    obtain ⟨middle, hstep, hrest⟩ := Option.bind_eq_some_iff.mp hrun
    obtain ⟨hmiddle, hmiddleBound⟩ := leaves_of_append_step h hbound hstep
    obtain ⟨hleaves, hfinal⟩ := ih hmiddleBound hrest
    refine ⟨?_, hfinal⟩
    rw [hleaves, hmiddle, List.append_assoc]
    cases hencode : encode leaf with
    | error e => simp [hencode, Except.toOption]
    | ok bytes => simp [hencode, Except.toOption]

/-- The appended leaves and their bytes correspond. -/
theorem forall₂_appended (h : EncodesWith append verify encode) (leaves : List L) :
    List.Forall₂ (fun leaf bytes => encode leaf = .ok bytes) (appended append leaves)
      (leaves.filterMap fun leaf => (encode leaf).toOption) := by
  have hisOk : ∀ leaf, (append .new leaf).isOk = (encode leaf).isOk := by
    intro leaf
    rw [h.append_eq]
    cases encode leaf <;> rfl
  induction leaves with
  | nil => exact .nil
  | cons leaf leaves ih =>
    rw [appended, List.filter_cons, hisOk]
    cases hencode : encode leaf with
    | error e =>
      rw [List.filterMap_cons_none (by rw [hencode]; rfl)]
      exact ih
    | ok bytes =>
      rw [List.filterMap_cons_some (by rw [hencode]; rfl)]
      exact .cons hencode ih

/-- Raw leaves are appended and verified verbatim. -/
theorem encodesWith_raw :
    EncodesWith (fun tree leaf => .ok (tree.append_raw leaf)) verify_inclusion_raw .ok where
  append_eq _ _ := rfl
  verify_eq _ _ _ _ := rfl

/-- Other leaves go through `postcard`. -/
theorem encodesWith_postcard [Postcard L] :
    EncodesWith (L := L) AppendOnlyTree.append verify_inclusion serialize_leaf where
  append_eq tree leaf := by
    rw [AppendOnlyTree.append]
    cases serialize_leaf leaf <;> rfl
  verify_eq _ _ _ _ := rfl

variable [Sha2] [Rfc6962CtMerkle]

/-- The audit path of an appended leaf verifies after the byte round trip. -/
theorem prove_inclusion_verifies {tree : AppendOnlyTree} (hlen : tree.leaves.length < 2 ^ 63) {i : UInt64}
    (hi : i.toNat < tree.leaves.length) :
    ∃ proof received, tree.prove_inclusion i = .ok proof ∧
      InclusionProof.try_from_bytes proof.as_bytes = .ok received ∧
      verify_inclusion_raw tree.root tree.leaves[i.toNat] i received = .ok () := by
  have hlenNat := AppendOnlyTree.toNat_len (hlen.trans (by decide))
  refine ⟨_, _, AppendOnlyTree.prove_inclusion_eq_ok (hlen.trans (by decide)) hi,
    InclusionProof.try_from_bytes_eq_ok_iff.mpr ⟨rfl, ?_⟩, ?_⟩
  · rw [length_flatMap_as_slice]
    exact Nat.dvd_mul_left _ _
  · rw [AppendOnlyTree.root_eq, verify_inclusion_raw_eq_ok_iff (by rw [hlenNat]; exact hlen)]
    refine ⟨_, rfl, ?_⟩
    rw [hlenNat]
    exact rfc6962.verify_path_path hi

variable [SameSizeCtMerkle]

/-- The consistency proof from an earlier state of a tree verifies after the byte round
trip, also from the current state itself. -/
theorem prove_consistency_verifies {tree : AppendOnlyTree} (hlen : tree.leaves.length < 2 ^ 63) {m : Nat}
    (hpos : 1 ≤ m) (hm : m ≤ tree.leaves.length) :
    ∃ proof received,
      tree.prove_consistency (AppendOnlyTree.len ⟨tree.leaves.take m⟩) tree.len = .ok proof ∧
      ConsistencyProof.try_from_bytes proof.as_bytes = .ok received ∧
      verify_consistency (AppendOnlyTree.root ⟨tree.leaves.take m⟩) tree.root received = .ok () := by
  have hlenNat := AppendOnlyTree.toNat_len (hlen.trans (by decide))
  have htake : (tree.leaves.take m).length = m := by simp [hm]
  have holdNat : (AppendOnlyTree.len ⟨tree.leaves.take m⟩).toNat = m := by
    rw [AppendOnlyTree.toNat_len (by rw [htake]; omega), htake]
  obtain rfl | hlt := hm.eq_or_lt
  · have hne : tree.leaves ≠ [] := List.ne_nil_of_length_pos hpos
    have hproof : tree.prove_consistency tree.len tree.len = .ok ⟨[]⟩ := by
      have hzero : ¬ tree.len = 0 := by
        intro h
        rw [h] at hlenNat
        simp only [UInt64.toNat_zero] at hlenNat
        omega
      rw [AppendOnlyTree.prove_consistency, reject_if_of_not (by simp), ok_bind, reject_if_of_not hzero, ok_bind,
        reject_if_of_not (by simp), ok_bind]
      simp only [UInt64.sub_self, UInt64.toNat_zero, SameSizeCtMerkle.prove_consistency_zero _ hne]
      rfl
    rw [List.take_length]
    refine ⟨⟨[]⟩, ⟨[]⟩, hproof, ConsistencyProof.try_from_bytes_eq_ok_iff.mpr ⟨rfl, by simp⟩, ?_⟩
    rw [verify_consistency, mapError_eq_ok_iff]
    refine SameSizeCtMerkle.verify_consistency_self _ _ ?_ ?_
    · rw [AppendOnlyTree.root, hlenNat]
      exact hlen
    · rw [AppendOnlyTree.root, hlenNat]
      exact hpos
  · have hproof := @AppendOnlyTree.prove_consistency_eq_ok _ _ _ tree (AppendOnlyTree.len ⟨tree.leaves.take m⟩)
      (hlen.trans (by decide)) (by rw [holdNat]; exact hpos) (by rw [holdNat]; exact hlt)
    refine ⟨_, _, hproof, ConsistencyProof.try_from_bytes_eq_ok_iff.mpr ⟨rfl, ?_⟩, ?_⟩
    · rw [length_flatMap_as_slice]
      exact Nat.dvd_mul_left _ _
    · rw [AppendOnlyTree.root_eq, AppendOnlyTree.root_eq, verify_consistency_eq_ok_iff]
      · refine ⟨_, rfl, ?_⟩
        rw [holdNat, hlenNat]
        exact rfc6962.verify_proof_proof hpos hlt
      · rw [hlenNat]
        exact hlen
      · rw [holdNat]
        exact hpos
      · rw [UInt64.lt_iff_toNat_lt, holdNat, hlenNat]
        exact hlt

/-- A run of appends through one encoding is externally verifiable. -/
theorem EncodesWith.externallyVerifiable (h : EncodesWith append verify encode) {leaves later : List L}
    {old current : AppendOnlyTree} (hold : append_run append .new leaves = some old)
    (hcurrent : append_run append old later = some current) :
    ExternallyVerifiable append verify leaves later old current := by
  obtain ⟨holdLeaves, holdBound⟩ := leaves_of_append_run h (Nat.zero_le _) hold
  obtain ⟨hcurrentLeaves, hbound⟩ := leaves_of_append_run h holdBound hcurrent
  rw [AppendOnlyTree.new, List.nil_append] at holdLeaves
  have hall : current.leaves = (leaves ++ later).filterMap fun leaf => (encode leaf).toOption := by
    rw [hcurrentLeaves, holdLeaves, List.filterMap_append]
  have hmax : MAX_LEAVES < 2 ^ 63 := by decide
  have hoverall := forall₂_appended h (leaves ++ later)
  rw [← hall] at hoverall
  have hprefix : old = ⟨current.leaves.take old.leaves.length⟩ := by
    ext1
    simp [hcurrentLeaves]
  have holdLe : old.leaves.length ≤ current.leaves.length := by simp [hcurrentLeaves]
  have holdNat := @AppendOnlyTree.toNat_len old (by omega)
  have hcurrentNat := @AppendOnlyTree.toNat_len current (by omega)
  refine
    { parts := RootHash.from_parts_to_parts
      len_old := ?_
      len_current := hcurrentNat.trans hoverall.length_eq.symm
      inclusion_ok_iff := fun i => AppendOnlyTree.isOk_prove_inclusion_iff
      inclusion_verifies := ?_
      consistency_ok_iff := fun a b => AppendOnlyTree.isOk_prove_consistency_iff
      consistency_verifies := ?_
      no_panic := fun other hother => AppendOnlyTree.prove_eq_of_agreesWhereDefined (by omega) hother }
  · rw [holdNat, holdLeaves]
    exact (forall₂_appended h leaves).length_eq.symm
  · intro i leaf hleaf
    obtain ⟨hi, rfl⟩ := List.getElem?_eq_some_iff.mp hleaf
    have hi' : i.toNat < current.leaves.length := hoverall.length_eq ▸ hi
    have hencode := (List.forall₂_iff_get.mp hoverall).2 i.toNat hi hi'
    obtain ⟨proof, received, hproof, hreceived, hverify⟩ := prove_inclusion_verifies (by omega) hi'
    refine ⟨proof, received, hproof, hreceived, ?_⟩
    rw [RootHash.from_parts_to_parts, h.verify_eq]
    simp only [List.get_eq_getElem] at hencode
    rw [hencode, ok_bind]
    exact hverify
  · intro hone
    have hpos : 1 ≤ old.leaves.length := by
      rw [UInt64.le_iff_toNat_le, holdNat] at hone
      exact hone
    obtain ⟨proof, received, hproof, hreceived, hverify⟩ := prove_consistency_verifies (by omega) hpos holdLe
    rw [← hprefix] at hproof hverify
    exact ⟨proof, received, hproof, hreceived, hverify⟩

end Encoding

section Published

variable [CtMerkle] [Sha2] [Rfc6962CtMerkle] [SameSizeCtMerkle] {L : Type} [Postcard L]

/-- Whatever a tree published at two moments of a run of appends, its roots and the bytes
of its proofs are all that a third party needs, for raw and for `postcard` leaves. -/
theorem externally_verifiable :
    (∀ (leaves later : List Bytes) (old current : AppendOnlyTree),
      append_run (fun tree leaf => .ok (tree.append_raw leaf)) .new leaves = some old →
      append_run (fun tree leaf => .ok (tree.append_raw leaf)) old later = some current →
      ExternallyVerifiable (fun tree leaf => .ok (tree.append_raw leaf)) verify_inclusion_raw leaves later
        old current) ∧
    ∀ (leaves later : List L) (old current : AppendOnlyTree),
      append_run AppendOnlyTree.append .new leaves = some old →
      append_run AppendOnlyTree.append old later = some current →
      ExternallyVerifiable AppendOnlyTree.append verify_inclusion leaves later old current :=
  ⟨fun _ _ _ _ => encodesWith_raw.externallyVerifiable, fun _ _ _ _ => encodesWith_postcard.externallyVerifiable⟩

end Published

section

open reference

/-- Two appends, both moments published. -/
theorem externally_verifiable_two_leaves :
    ExternallyVerifiable (fun tree leaf => .ok (tree.append_raw leaf)) verify_inclusion_raw [[0x78]] [[0x79]]
      ⟨[[0x78]]⟩ ⟨[[0x78], [0x79]]⟩ ∧
    ExternallyVerifiable AppendOnlyTree.append verify_inclusion [(0x78 : UInt8)] [0x79] ⟨[[0x78]]⟩ ⟨[[0x78], [0x79]]⟩ := by
  obtain ⟨hraw, hpostcard⟩ := externally_verifiable (L := UInt8)
  exact ⟨hraw _ _ _ _ (by decide) (by decide), hpostcard _ _ _ _ (by decide) (by decide)⟩

end

end lys
