import Lys.Rfc6962.Tree

namespace rfc6962

variable {α D : Type}

/-- `PATH(i, D[n])`, the audit path of RFC 6962 §2.1.1, in its order from the leaf up
to the root. -/
def path (H : Hasher α D) (i : Nat) (leaves : List α) : List D :=
  if 2 ≤ leaves.length then
    let k := split leaves.length
    if i < k then path H i (leaves.take k) ++ [mth H (leaves.drop k)]
    else path H (i - k) (leaves.drop k) ++ [mth H (leaves.take k)]
  else []
termination_by leaves.length
decreasing_by
  · have := split_lt (n := leaves.length) (by omega)
    simp only [List.length_take]
    omega
  · have := split_pos leaves.length
    simp only [List.length_drop]
    omega

/-- The root recomputed from a leaf hash and its siblings listed from the root down.
The list must have exactly the length the shape of the tree gives. -/
def climb (H : Hasher α D) (hash : D) (i n : Nat) : List D → Option D
  | [] => if n = 1 then some hash else none
  | sibling :: siblings =>
    if n ≤ 1 then none
    else if i < split n then
      (climb H hash i (split n) siblings).map fun left => H.node left sibling
    else (climb H hash (i - split n) (n - split n) siblings).map fun right => H.node sibling right

/-- The nodes hashed by `climb`. -/
def climb_preimages (H : Hasher α D) (hash : D) (i n : Nat) : List D → List (Preimage α D)
  | [] => []
  | sibling :: siblings =>
    if n ≤ 1 then []
    else if i < split n then
      ((climb H hash i (split n) siblings).toList.map fun left => .node left sibling) ++
        climb_preimages H hash i (split n) siblings
    else
      ((climb H hash (i - split n) (n - split n) siblings).toList.map fun right => .node sibling right) ++
        climb_preimages H hash (i - split n) (n - split n) siblings

/-- Verification of an audit path: the path starts at the leaf, as `path` lists it. -/
def verify_path [DecidableEq D] (H : Hasher α D) (root hash : D) (i n : Nat) (siblings : List D) : Bool :=
  i < n && climb H hash i n siblings.reverse = some root

variable {H : Hasher α D}

theorem path_split {i : Nat} {leaves : List α} (h : 2 ≤ leaves.length) :
    (path H i leaves).reverse =
      if i < split leaves.length then
        mth H (leaves.drop (split leaves.length)) :: (path H i (leaves.take (split leaves.length))).reverse
      else mth H (leaves.take (split leaves.length)) ::
        (path H (i - split leaves.length) (leaves.drop (split leaves.length))).reverse := by
  rw [path, if_pos h]
  by_cases hside : i < split leaves.length <;> simp [hside]

theorem path_short {i : Nat} {leaves : List α} (h : leaves.length < 2) : path H i leaves = [] := by
  rw [path, if_neg (by omega)]

theorem climb_left {hash sibling : D} {siblings : List D} {i n : Nat} (hn : 2 ≤ n) (hi : i < split n) :
    climb H hash i n (sibling :: siblings) =
      (climb H hash i (split n) siblings).map fun left => H.node left sibling := by
  rw [climb, if_neg (by omega), if_pos hi]

theorem climb_right {hash sibling : D} {siblings : List D} {i n : Nat} (hn : 2 ≤ n) (hi : split n ≤ i) :
    climb H hash i n (sibling :: siblings) =
      (climb H hash (i - split n) (n - split n) siblings).map fun right => H.node sibling right := by
  rw [climb, if_neg (by omega), if_neg (by omega)]

/-- A climb in a tree of at least two leaves uses a sibling at the top, and the
side of the index decides where it goes. -/
theorem exists_of_climb_eq_some {hash root : D} {siblings : List D} {i n : Nat} (hn : 2 ≤ n)
    (h : climb H hash i n siblings = some root) :
    ∃ sibling rest inner, siblings = sibling :: rest ∧
      ((i < split n ∧ climb H hash i (split n) rest = some inner ∧ root = H.node inner sibling ∧
          .node inner sibling :: climb_preimages H hash i (split n) rest =
            climb_preimages H hash i n siblings) ∨
        (split n ≤ i ∧ climb H hash (i - split n) (n - split n) rest = some inner ∧
          root = H.node sibling inner ∧
          .node sibling inner :: climb_preimages H hash (i - split n) (n - split n) rest =
            climb_preimages H hash i n siblings)) := by
  cases siblings with
  | nil =>
    rw [climb, if_neg (by omega)] at h
    cases h
  | cons sibling rest =>
    rcases Nat.lt_or_ge i (split n) with hi | hi
    · rw [climb_left hn hi, Option.map_eq_some_iff] at h
      obtain ⟨inner, hinner, hroot⟩ := h
      refine ⟨sibling, rest, inner, rfl, .inl ⟨hi, hinner, hroot.symm, ?_⟩⟩
      rw [climb_preimages, if_neg (by omega), if_pos hi, hinner]
      rfl
    · rw [climb_right hn hi, Option.map_eq_some_iff] at h
      obtain ⟨inner, hinner, hroot⟩ := h
      refine ⟨sibling, rest, inner, rfl, .inr ⟨hi, hinner, hroot.symm, ?_⟩⟩
      rw [climb_preimages, if_neg (by omega), if_neg (by omega), hinner]
      rfl

theorem climb_one {hash root : D} {siblings : List D} {i n : Nat} (hn : n ≤ 1)
    (h : climb H hash i n siblings = some root) : siblings = [] ∧ root = hash := by
  cases siblings with
  | nil =>
    rw [climb] at h
    split at h
    · exact ⟨rfl, (Option.some.inj h).symm⟩
    · cases h
  | cons sibling rest =>
    rw [climb, if_pos hn] at h
    cases h

/-- Climbing the audit path of the leaf at `i` gives the root. -/
theorem climb_path {leaves : List α} {i : Nat} (hi : i < leaves.length) :
    climb H (H.leaf leaves[i]) i leaves.length (path H i leaves).reverse = some (mth H leaves) := by
  induction hn : leaves.length using Nat.strong_induction_on generalizing leaves i with
  | _ n ih =>
    rcases Nat.lt_or_ge leaves.length 2 with hshort | hlong
    · rw [path_short hshort]
      match leaves, hi, hshort with
      | [data], hi, _ =>
        obtain rfl : i = 0 := by simpa using hi
        simp_all [climb]
    · subst hn
      have hlt := split_lt hlong
      have hpos := split_pos leaves.length
      rw [path_split hlong, mth_split H hlong]
      rcases Nat.lt_or_ge i (split leaves.length) with hside | hside
      · have hlength : (leaves.take (split leaves.length)).length = split leaves.length := by
          simp [hlt.le]
        have hrec := @ih (split leaves.length) hlt (leaves.take (split leaves.length)) i (by omega) hlength
        rw [List.getElem_take] at hrec
        rw [if_pos hside, climb_left hlong hside, hrec, Option.map_some]
      · have hlength : (leaves.drop (split leaves.length)).length = leaves.length - split leaves.length := by
          simp
        have hrec := @ih (leaves.length - split leaves.length) (by omega)
          (leaves.drop (split leaves.length)) (i - split leaves.length) (by omega) hlength
        rw [List.getElem_drop] at hrec
        simp only [Nat.add_sub_cancel' hside] at hrec
        rw [if_neg (by omega), climb_right hlong hside, hrec, Option.map_some]

theorem verify_path_path [DecidableEq D] {leaves : List α} {i : Nat} (hi : i < leaves.length) :
    verify_path H (mth H leaves) (H.leaf leaves[i]) i leaves.length (path H i leaves) = true := by
  simp [verify_path, hi, climb_path hi]

/-- A tree of at most `2 ^ d` leaves has audit paths of at most `d` nodes. -/
theorem length_path_le {leaves : List α} {i d : Nat} (h : leaves.length ≤ 2 ^ d) :
    (path H i leaves).length ≤ d := by
  induction d generalizing leaves i with
  | zero => simp [path_short (H := H) (i := i) (show leaves.length < 2 by omega)]
  | succ d ih =>
    rcases Nat.lt_or_ge leaves.length 2 with hshort | hlong
    · simp [path_short (H := H) (i := i) hshort]
    · have hsplit := split_le_two_pow hlong h
      have htwo := le_two_mul_split (n := leaves.length)
      rw [← List.length_reverse, path_split hlong]
      split
      · have := @ih (leaves.take (split leaves.length)) i
          (by simp only [List.length_take]; omega)
        simpa using this
      · have := @ih (leaves.drop (split leaves.length)) (i - split leaves.length)
          (by simp only [List.length_drop]; omega)
        simpa using this

/-- Two climbs of one index in trees of one size reach one root only from one leaf
hash along one path, unless two of the nodes they hash collide. -/
theorem climb_binding {hash hash' root : D} {siblings siblings' : List D} {i n : Nat} (hi : i < n)
    (h : climb H hash i n siblings = some root) (h' : climb H hash' i n siblings' = some root) :
    (hash = hash' ∧ siblings = siblings') ∨
      H.Collides (climb_preimages H hash i n siblings ++ climb_preimages H hash' i n siblings') := by
  induction siblings generalizing siblings' root i n with
  | nil =>
    rw [climb] at h
    split at h
    next hone =>
      obtain ⟨hnil, hroot⟩ := climb_one hone.le h'
      exact .inl ⟨(Option.some.inj h).trans hroot, hnil.symm⟩
    next => cases h
  | cons sibling siblings ih =>
    have hn : 2 ≤ n := by
      by_contra hsmall
      rw [climb, if_pos (by omega)] at h
      cases h
    have hlt := split_lt hn
    obtain ⟨s, rest, inner, hcons, hside⟩ := exists_of_climb_eq_some hn h
    obtain ⟨s', rest', inner', rfl, hside'⟩ := exists_of_climb_eq_some hn h'
    obtain ⟨rfl, rfl⟩ := List.cons.inj hcons
    rcases hside with ⟨hleft, hinner, hroot, hpre⟩ | ⟨hright, hinner, hroot, hpre⟩
    · obtain ⟨_, hinner', hroot', hpre'⟩ | ⟨hright', _⟩ := hside'
      · rcases H.node_eq_or_collides (hroot.symm.trans hroot') with ⟨rfl, rfl⟩ | hcoll
        · rcases ih hleft hinner hinner' with ⟨hhash, hrest⟩ | hcoll
          · exact .inl ⟨hhash, by rw [hrest]⟩
          · refine .inr (hcoll.mono ?_)
            rw [← hpre, ← hpre']
            intro p hp
            rcases List.mem_append.mp hp with hp | hp <;> simp [hp]
        · refine .inr (hcoll.mono ?_)
          rw [← hpre, ← hpre']
          simp
      · omega
    · obtain ⟨hleft', _⟩ | ⟨_, hinner', hroot', hpre'⟩ := hside'
      · omega
      · rcases H.node_eq_or_collides (hroot.symm.trans hroot') with ⟨rfl, rfl⟩ | hcoll
        · rcases ih (by omega) hinner hinner' with ⟨hhash, hrest⟩ | hcoll
          · exact .inl ⟨hhash, by rw [hrest]⟩
          · refine .inr (hcoll.mono ?_)
            rw [← hpre, ← hpre']
            intro p hp
            rcases List.mem_append.mp hp with hp | hp <;> simp [hp]
        · refine .inr (hcoll.mono ?_)
          rw [← hpre, ← hpre']
          simp

end rfc6962
