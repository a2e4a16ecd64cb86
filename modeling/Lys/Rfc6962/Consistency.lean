import Lys.Rfc6962.Inclusion

namespace rfc6962

variable {α D : Type}

/-- `SUBPROOF(m, D[n], b)` of RFC 6962 §2.1.2. The flag `b` says that the subtree of the
first `m` leaves is the whole old tree, whose root the verifier has. -/
def subproof (H : Hasher α D) (m : Nat) (leaves : List α) (b : Bool) : List D :=
  if leaves.length ≤ m then
    if b then [] else [mth H leaves]
  else if 2 ≤ leaves.length then
    let k := split leaves.length
    if m ≤ k then subproof H m (leaves.take k) b ++ [mth H (leaves.drop k)]
    else subproof H (m - k) (leaves.drop k) false ++ [mth H (leaves.take k)]
  else []
termination_by leaves.length
decreasing_by
  · have := split_lt (n := leaves.length) (by omega)
    simp only [List.length_take]
    omega
  · have := split_pos leaves.length
    simp only [List.length_drop]
    omega

/-- `PROOF(m, D[n])`, the consistency proof of RFC 6962 §2.1.2. -/
def proof (H : Hasher α D) (m : Nat) (leaves : List α) : List D := subproof H m leaves true

/-- The roots of the first `m` and of all `n` leaves of a subtree, recomputed from a
proof listed from the root down. While `b` holds the old root is the caller's. -/
def roots (H : Hasher α D) (old : D) (m n : Nat) (b : Bool) : List D → Option (D × D)
  | [] => if m = n ∧ b then some (old, old) else none
  | p :: ps =>
    if m = n then
      if b = false ∧ ps = [] then some (p, p) else none
    else if n ≤ m then none
    else if m ≤ split n then (roots H old m (split n) b ps).map fun r => (r.1, H.node r.2 p)
    else (roots H old (m - split n) (n - split n) false ps).map fun r => (H.node p r.1, H.node p r.2)

/-- The nodes hashed by `roots`. -/
def roots_preimages (H : Hasher α D) (old : D) (m n : Nat) (b : Bool) : List D → List (Preimage α D)
  | [] => []
  | p :: ps =>
    if n ≤ m then []
    else if m ≤ split n then
      ((roots H old m (split n) b ps).toList.map fun r => .node r.2 p) ++
        roots_preimages H old m (split n) b ps
    else
      ((roots H old (m - split n) (n - split n) false ps).toList.flatMap
          fun r => [.node p r.1, .node p r.2]) ++
        roots_preimages H old (m - split n) (n - split n) false ps

/-- Verification of a consistency proof between sizes `1 ≤ m < n`. -/
def verify_proof [DecidableEq D] (H : Hasher α D) (old new : D) (m n : Nat) (hashes : List D) : Bool :=
  1 ≤ m && m < n && roots H old m n true hashes.reverse = some (old, new)

variable {H : Hasher α D}

/-- What a successful recomputation is: a terminal subtree shared by both trees, or
one level of the new tree, entered on the left or on the right. -/
inductive RootsStep (H : Hasher α D) (old : D) (m n : Nat) (b : Bool) (ps : List D) (r : D × D) : Prop where
  | anchored (hmn : m = n) (hb : b = true) (hps : ps = []) (hr : r = (old, old))
  | shared (hash : D) (hmn : m = n) (hb : b = false) (hps : ps = [hash]) (hr : r = (hash, hash))
  | left (p : D) (rest : List D) (inner : D × D) (hm : m ≤ split n) (hn : m < n) (hps : ps = p :: rest)
      (hinner : roots H old m (split n) b rest = some inner) (hr : r = (inner.1, H.node inner.2 p))
      (hpre : roots_preimages H old m n b ps =
        .node inner.2 p :: roots_preimages H old m (split n) b rest)
  | right (p : D) (rest : List D) (inner : D × D) (hm : split n < m) (hn : m < n) (hps : ps = p :: rest)
      (hinner : roots H old (m - split n) (n - split n) false rest = some inner)
      (hr : r = (H.node p inner.1, H.node p inner.2))
      (hpre : roots_preimages H old m n b ps = .node p inner.1 :: .node p inner.2 ::
        roots_preimages H old (m - split n) (n - split n) false rest)

theorem rootsStep_of_roots_eq_some {old : D} {m n : Nat} {b : Bool} {ps : List D} {r : D × D}
    (h : roots H old m n b ps = some r) : RootsStep H old m n b ps r := by
  cases ps with
  | nil =>
    rw [roots] at h
    split at h
    next hterminal => exact .anchored hterminal.1 hterminal.2 rfl (Option.some.inj h).symm
    next => cases h
  | cons p ps =>
    rw [roots] at h
    split at h
    next hmn =>
      split at h
      next hterminal =>
        obtain ⟨hb, rfl⟩ := hterminal
        exact .shared p hmn hb rfl (Option.some.inj h).symm
      next => cases h
    next hne =>
      split at h
      next => cases h
      next hlt =>
        split at h
        next hm =>
          obtain ⟨inner, hinner, hr⟩ := Option.map_eq_some_iff.mp h
          refine .left p ps inner hm (by omega) rfl hinner hr.symm ?_
          rw [roots_preimages, if_neg hlt, if_pos hm, hinner]
          rfl
        next hm =>
          obtain ⟨inner, hinner, hr⟩ := Option.map_eq_some_iff.mp h
          refine .right p ps inner (by omega) (by omega) rfl hinner hr.symm ?_
          rw [roots_preimages, if_neg hlt, if_neg hm, hinner]
          rfl

theorem subproof_left {m : Nat} {leaves : List α} {b : Bool} (hm : m ≤ split leaves.length)
    (hn : m < leaves.length) (htwo : 2 ≤ leaves.length) :
    (subproof H m leaves b).reverse = mth H (leaves.drop (split leaves.length)) ::
      (subproof H m (leaves.take (split leaves.length)) b).reverse := by
  rw [subproof, if_neg (by omega), if_pos htwo]
  simp [hm]

theorem subproof_right {m : Nat} {leaves : List α} {b : Bool} (hm : split leaves.length < m)
    (hn : m < leaves.length) :
    (subproof H m leaves b).reverse = mth H (leaves.take (split leaves.length)) ::
      (subproof H (m - split leaves.length) (leaves.drop (split leaves.length)) false).reverse := by
  have hpos := split_pos leaves.length
  rw [subproof, if_neg (by omega), if_pos (by omega)]
  simp [show ¬ m ≤ split leaves.length by omega]

/-- An honest subproof recomputes both roots. -/
theorem roots_subproof {leaves : List α} {m₁ : Nat} {b : Bool} {old : D} (hpos : 1 ≤ m₁)
    (hm : m₁ ≤ leaves.length) (hold : b = true → old = mth H (leaves.take m₁)) :
    roots H old m₁ leaves.length b (subproof H m₁ leaves b).reverse =
      some (mth H (leaves.take m₁), mth H leaves) := by
  induction hn : leaves.length using Nat.strong_induction_on generalizing leaves m₁ b with
  | _ n ih =>
    subst hn
    rcases hm.eq_or_lt with heq | hlt
    · subst heq
      rw [List.take_length] at hold ⊢
      rw [subproof, if_pos le_rfl]
      cases b with
      | true => simp [roots, hold rfl]
      | false => simp [roots]
    · have htwo : 2 ≤ leaves.length := by omega
      have hsplit := split_lt htwo
      have hsplitPos := split_pos leaves.length
      rcases Nat.lt_or_ge (split leaves.length) m₁ with hside | hside
      · have hlength : (leaves.drop (split leaves.length)).length = leaves.length - split leaves.length := by
          simp
        have hrec := @ih (leaves.length - split leaves.length) (by omega)
          (leaves.drop (split leaves.length)) (m₁ - split leaves.length) false
          (by omega) (by omega) (by simp) hlength
        rw [subproof_right hside hlt, roots, if_neg (by omega), if_neg (by omega), if_neg (by omega), hrec,
          Option.map_some, mth_take_split H hside hm, mth_split H htwo]
      · have hlength : (leaves.take (split leaves.length)).length = split leaves.length := by simp [hsplit.le]
        have htake : (leaves.take (split leaves.length)).take m₁ = leaves.take m₁ := by
          rw [List.take_take, min_eq_left hside]
        have hrec := @ih (split leaves.length) hsplit (leaves.take (split leaves.length)) m₁ b
          hpos (by omega) (by rwa [htake]) hlength
        rw [subproof_left hside hlt htwo, roots, if_neg (by omega), if_neg (by omega), if_pos hside, hrec,
          Option.map_some, htake, mth_split H htwo]

theorem verify_proof_proof [DecidableEq D] {leaves : List α} {m : Nat} (hpos : 1 ≤ m)
    (hm : m < leaves.length) :
    verify_proof H (mth H (leaves.take m)) (mth H leaves) m leaves.length (proof H m leaves) = true := by
  simp [verify_proof, hpos, hm, proof, roots_subproof hpos hm.le]

/-- A tree of at most `2 ^ d` leaves has subproofs of at most `d + 1` nodes. -/
theorem length_subproof_le {leaves : List α} {m d : Nat} {b : Bool} (h : leaves.length ≤ 2 ^ d) :
    (subproof H m leaves b).length ≤ d + 1 := by
  induction d generalizing leaves m b with
  | zero =>
    rw [subproof]
    split
    · cases b <;> simp
    · rw [if_neg (by omega)]
      simp
  | succ d ih =>
    rcases Nat.lt_or_ge m leaves.length with hlt | hge
    · rcases Nat.lt_or_ge leaves.length 2 with hshort | hlong
      · rw [subproof, if_neg (by omega), if_neg (by omega)]
        simp
      · have hsplit := split_le_two_pow hlong h
        have htwo := le_two_mul_split (n := leaves.length)
        rw [← List.length_reverse]
        rcases Nat.lt_or_ge (split leaves.length) m with hside | hside
        · have := @ih (leaves.drop (split leaves.length)) (m - split leaves.length) false
            (by simp only [List.length_drop]; omega)
          simpa [subproof_right (H := H) (b := b) hside hlt] using this
        · have := @ih (leaves.take (split leaves.length)) m b
            (by simp only [List.length_take]; omega)
          simpa [subproof_left (H := H) (b := b) hside hlt hlong] using this
    · rw [subproof, if_pos hge]
      cases b <;> simp

/-- Two recomputations that reach one new root for the same sizes have the same old
root and proof, unless two of the nodes they hash collide. -/
theorem roots_binding {old old' o o' new : D} {m n : Nat} {b : Bool} {ps ps' : List D} (hm : 1 ≤ m)
    (h : roots H old m n b ps = some (o, new)) (h' : roots H old' m n b ps' = some (o', new)) :
    (o = o' ∧ ps = ps') ∨
      H.Collides (roots_preimages H old m n b ps ++ roots_preimages H old' m n b ps') := by
  induction ps generalizing ps' o o' new m n b with
  | nil =>
    cases rootsStep_of_roots_eq_some h with
    | anchored hmn hb _ hr =>
      cases rootsStep_of_roots_eq_some h' with
      | anchored _ _ hps' hr' =>
        simp only [Prod.mk.injEq] at hr hr'
        exact .inl ⟨by rw [hr.1, ← hr.2, hr'.1, ← hr'.2], hps'.symm⟩
      | shared _ _ hb' => simp [hb] at hb'
      | left _ _ _ _ hn => omega
      | right _ _ _ _ hn => omega
    | shared _ _ _ hps => cases hps
    | left _ _ _ _ _ hps => cases hps
    | right _ _ _ _ _ hps => cases hps
  | cons p ps ih =>
    cases rootsStep_of_roots_eq_some h with
    | anchored _ _ hps => cases hps
    | shared hash hmn hb hps hr =>
      cases rootsStep_of_roots_eq_some h' with
      | anchored _ hb' => simp [hb] at hb'
      | shared hash' _ _ hps' hr' =>
        simp only [Prod.mk.injEq] at hr hr'
        obtain ⟨rfl, rfl⟩ := hr
        obtain ⟨rfl, rfl⟩ := hr'
        exact .inl ⟨rfl, hps.trans hps'.symm⟩
      | left _ _ _ _ hn => omega
      | right _ _ _ _ hn => omega
    | left q rest inner hside hn hps hinner hr hpre =>
      cases rootsStep_of_roots_eq_some h' with
      | anchored hmn => omega
      | shared _ hmn => omega
      | right _ _ _ hside' => omega
      | left q' rest' inner' _ _ hps' hinner' hr' hpre' =>
        obtain ⟨rfl, rfl⟩ := List.cons.inj hps
        subst hps'
        simp only [Prod.mk.injEq] at hr hr'
        rw [hpre, hpre']
        rcases H.node_eq_or_collides (hr.2.symm.trans hr'.2) with ⟨hnew, rfl⟩ | hcoll
        · rcases ih hm hinner (show _ = some (_, inner.2) by rw [hinner', hnew]) with ⟨hold, rfl⟩ | hcoll
          · exact .inl ⟨by rw [hr.1, hr'.1, hold], rfl⟩
          · refine .inr (hcoll.mono fun q hq => ?_)
            rcases List.mem_append.mp hq with hq | hq <;> simp [hq]
        · exact .inr (hcoll.mono (by simp))
    | right q rest inner hside hn hps hinner hr hpre =>
      cases rootsStep_of_roots_eq_some h' with
      | anchored hmn => omega
      | shared _ hmn => omega
      | left _ _ _ hside' => omega
      | right q' rest' inner' _ _ hps' hinner' hr' hpre' =>
        obtain ⟨rfl, rfl⟩ := List.cons.inj hps
        subst hps'
        simp only [Prod.mk.injEq] at hr hr'
        rw [hpre, hpre']
        rcases H.node_eq_or_collides (hr.2.symm.trans hr'.2) with ⟨rfl, hnew⟩ | hcoll
        · rcases ih (by omega) hinner (show _ = some (_, inner.2) by rw [hinner', hnew]) with ⟨hold, rfl⟩ | hcoll
          · exact .inl ⟨by rw [hr.1, hr'.1, hold], rfl⟩
          · refine .inr (hcoll.mono fun q hq => ?_)
            rcases List.mem_append.mp hq with hq | hq <;> simp [hq]
        · exact .inr (hcoll.mono (by simp))

end rfc6962
