import Mathlib

namespace rfc6962

/-- The three hashes of a Merkle tree over leaves `α` with digests `D`: of the empty
tree, of a leaf and of two subtrees. -/
structure Hasher (α D : Type) where
  empty : D
  leaf : α → D
  node : D → D → D

/-- What a leaf or an inner node is the hash of. -/
inductive Preimage (α D : Type) where
  | leaf (data : α)
  | node (left right : D)
deriving DecidableEq

variable {α D : Type}

def Hasher.hash (H : Hasher α D) : Preimage α D → D
  | .leaf data => H.leaf data
  | .node left right => H.node left right

/-- Two different preimages in the list have one hash. -/
def Hasher.Collides (H : Hasher α D) (preimages : List (Preimage α D)) : Prop :=
  ∃ p ∈ preimages, ∃ q ∈ preimages, p ≠ q ∧ H.hash p = H.hash q

theorem Hasher.Collides.mono {H : Hasher α D} {ps qs : List (Preimage α D)} (h : H.Collides ps)
    (hsub : ps ⊆ qs) : H.Collides qs := by
  obtain ⟨p, hp, q, hq, hne, heq⟩ := h
  exact ⟨p, hsub hp, q, hsub hq, hne, heq⟩

/-- Equal node hashes have equal children, or the two nodes collide. -/
theorem Hasher.node_eq_or_collides (H : Hasher α D) {l r l' r' : D} (h : H.node l r = H.node l' r') :
    (l = l' ∧ r = r') ∨ H.Collides [.node l r, .node l' r'] := by
  by_cases heq : l = l' ∧ r = r'
  · exact .inl heq
  · refine .inr ⟨.node l r, by simp, .node l' r', by simp, ?_, h⟩
    simpa using heq

/-- The largest power of two below `n`, for `n ≥ 2`. -/
def split (n : Nat) : Nat := 2 ^ (n - 1).log2

theorem split_pos (n : Nat) : 0 < split n := Nat.two_pow_pos _

theorem split_lt {n : Nat} (h : 2 ≤ n) : split n < n := by
  have := Nat.log2_self_le (show n - 1 ≠ 0 by omega)
  unfold split
  omega

theorem le_two_mul_split {n : Nat} : n ≤ 2 * split n := by
  have := Nat.lt_log2_self (n := n - 1)
  unfold split
  rw [Nat.pow_succ] at this
  omega

/-- Sizes above the split point and up to `n` share it. -/
theorem split_eq_of_between {m n : Nat} (hlo : split n < m) (hhi : m ≤ n) : split m = split n := by
  have htwo := le_two_mul_split (n := n)
  unfold split at *
  congr 1
  rw [Nat.log2_eq_iff (by omega)]
  rw [Nat.pow_succ]
  omega

theorem split_le_two_pow {n d : Nat} (h : 2 ≤ n) (hn : n ≤ 2 ^ (d + 1)) : split n ≤ 2 ^ d := by
  unfold split
  apply Nat.pow_le_pow_right (by decide)
  have := (Nat.log2_lt (show n - 1 ≠ 0 by omega)).mpr (show n - 1 < 2 ^ (d + 1) by omega)
  omega

/-- `MTH(D[n])`, the Merkle tree hash of RFC 6962 §2.1. -/
def mth (H : Hasher α D) (leaves : List α) : D :=
  match leaves with
  | [] => H.empty
  | [data] => H.leaf data
  | a :: b :: rest =>
    let k := split (rest.length + 2)
    H.node (mth H ((a :: b :: rest).take k)) (mth H ((a :: b :: rest).drop k))
termination_by leaves.length
decreasing_by
  · have := split_lt (n := rest.length + 2) (by omega)
    simp only [List.length_take, List.length_cons]
    omega
  · have := split_pos (rest.length + 2)
    simp only [List.length_drop, List.length_cons]
    omega

@[simp] theorem mth_nil (H : Hasher α D) : mth H [] = H.empty := by rw [mth]

@[simp] theorem mth_singleton (H : Hasher α D) (data : α) : mth H [data] = H.leaf data := by rw [mth]

theorem mth_split (H : Hasher α D) {leaves : List α} (h : 2 ≤ leaves.length) :
    mth H leaves = H.node (mth H (leaves.take (split leaves.length)))
      (mth H (leaves.drop (split leaves.length))) := by
  match leaves, h with
  | a :: b :: rest, _ => rw [mth]; rfl

/-- Every preimage hashed while computing `mth`. -/
def mth_preimages (H : Hasher α D) (leaves : List α) : List (Preimage α D) :=
  match leaves with
  | [] => []
  | [data] => [.leaf data]
  | a :: b :: rest =>
    let k := split (rest.length + 2)
    .node (mth H ((a :: b :: rest).take k)) (mth H ((a :: b :: rest).drop k)) ::
      (mth_preimages H ((a :: b :: rest).take k) ++ mth_preimages H ((a :: b :: rest).drop k))
termination_by leaves.length
decreasing_by
  · have := split_lt (n := rest.length + 2) (by omega)
    simp only [List.length_take, List.length_cons]
    omega
  · have := split_pos (rest.length + 2)
    simp only [List.length_drop, List.length_cons]
    omega

theorem mth_preimages_split (H : Hasher α D) {leaves : List α} (h : 2 ≤ leaves.length) :
    mth_preimages H leaves =
      .node (mth H (leaves.take (split leaves.length))) (mth H (leaves.drop (split leaves.length))) ::
        (mth_preimages H (leaves.take (split leaves.length)) ++
          mth_preimages H (leaves.drop (split leaves.length))) := by
  match leaves, h with
  | a :: b :: rest, _ => rw [mth_preimages]; rfl

/-- A prefix longer than the split point keeps the left subtree whole. -/
theorem mth_take_split (H : Hasher α D) {leaves : List α} {m : Nat}
    (hlo : split leaves.length < m) (hhi : m ≤ leaves.length) :
    mth H (leaves.take m) = H.node (mth H (leaves.take (split leaves.length)))
      (mth H ((leaves.drop (split leaves.length)).take (m - split leaves.length))) := by
  have hlength : (leaves.take m).length = m := by simp [hhi]
  have hpos := split_pos leaves.length
  rw [mth_split H (by omega), hlength, split_eq_of_between hlo hhi, List.take_take, min_eq_left hlo.le,
    List.drop_take]

end rfc6962
