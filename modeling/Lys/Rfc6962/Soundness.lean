import Lys.Rfc6962.Consistency

namespace rfc6962

variable {α D : Type} {H : Hasher α D}

/-- Recomputing the roots from an honest subproof hashes only nodes of the two trees. -/
theorem roots_preimages_subproof_subset {leaves : List α} {m₁ : Nat} {b : Bool} {old : D} (hpos : 1 ≤ m₁)
    (hm : m₁ ≤ leaves.length) (hold : b = true → old = mth H (leaves.take m₁)) :
    roots_preimages H old m₁ leaves.length b (subproof H m₁ leaves b).reverse ⊆
      mth_preimages H leaves ++ mth_preimages H (leaves.take m₁) := by
  induction hn : leaves.length using Nat.strong_induction_on generalizing leaves m₁ b with
  | _ n ih =>
    subst hn
    rcases hm.eq_or_lt with heq | hlt
    · subst heq
      rw [subproof, if_pos le_rfl]
      cases b <;> simp [roots_preimages]
    · have htwo : 2 ≤ leaves.length := by omega
      have hsplit := split_lt htwo
      have hsplitPos := split_pos leaves.length
      rcases Nat.lt_or_ge (split leaves.length) m₁ with hside | hside
      · have hlength : (leaves.drop (split leaves.length)).length = leaves.length - split leaves.length := by
          simp
        have hinner : roots H old (m₁ - split leaves.length) (leaves.length - split leaves.length) false
            (subproof H (m₁ - split leaves.length) (leaves.drop (split leaves.length)) false).reverse =
            some (mth H ((leaves.drop (split leaves.length)).take (m₁ - split leaves.length)),
              mth H (leaves.drop (split leaves.length))) := by
          rw [← hlength]
          exact roots_subproof (by omega) (by omega) (by simp)
        have hrec := @ih (leaves.length - split leaves.length) (by omega)
          (leaves.drop (split leaves.length)) (m₁ - split leaves.length) false
          (by omega) (by omega) (by simp) hlength
        have hstarts : mth_preimages H (leaves.take m₁) =
            .node (mth H (leaves.take (split leaves.length)))
              (mth H ((leaves.drop (split leaves.length)).take (m₁ - split leaves.length))) ::
            (mth_preimages H (leaves.take (split leaves.length)) ++
              mth_preimages H ((leaves.drop (split leaves.length)).take (m₁ - split leaves.length))) := by
          have htake : (leaves.take m₁).length = m₁ := by simp [hm]
          rw [mth_preimages_split H (by omega), htake, split_eq_of_between hside hm, List.take_take,
            min_eq_left hside.le, List.drop_take]
        rw [subproof_right hside hlt, roots_preimages, if_neg (by omega), if_neg (by omega), hinner,
          mth_preimages_split H htwo, hstarts]
        intro p hp
        simp only [Option.toList_some, List.flatMap_cons, List.flatMap_nil, List.append_nil,
          List.mem_append, List.mem_cons, List.not_mem_nil, or_false] at hp
        rcases hp with (rfl | rfl) | hp
        · simp
        · simp
        · rcases List.mem_append.mp (hrec hp) with hp | hp <;> simp [hp]
      · have hlength : (leaves.take (split leaves.length)).length = split leaves.length := by simp [hsplit.le]
        have htake : (leaves.take (split leaves.length)).take m₁ = leaves.take m₁ := by
          rw [List.take_take, min_eq_left hside]
        have hinner : roots H old m₁ (split leaves.length) b
            (subproof H m₁ (leaves.take (split leaves.length)) b).reverse =
            some (mth H (leaves.take m₁), mth H (leaves.take (split leaves.length))) := by
          have h := @roots_subproof _ _ H (leaves.take (split leaves.length)) m₁ b old
            hpos (by omega) (by rwa [htake])
          rwa [hlength, htake] at h
        have hrec := @ih (split leaves.length) hsplit (leaves.take (split leaves.length)) m₁ b
          hpos (by omega) (by rwa [htake]) hlength
        rw [htake] at hrec
        rw [subproof_left hside hlt htwo, roots_preimages, if_neg (by omega), if_pos hside, hinner,
          mth_preimages_split H htwo]
        intro p hp
        simp only [Option.toList_some, List.map_cons, List.map_nil, List.mem_append, List.mem_cons,
          List.not_mem_nil, or_false] at hp
        rcases hp with rfl | hp
        · simp
        · rcases List.mem_append.mp (hrec hp) with hp | hp <;> simp [hp]

/-- A proof that recomputes the root of known leaves recomputes the root of their
first `m` as the old root, or an explicit collision is at hand. -/
theorem roots_sound {leaves : List α} {m : Nat} {old o : D} {ps : List D} (hpos : 1 ≤ m)
    (hm : m ≤ leaves.length) (h : roots H old m leaves.length true ps = some (o, mth H leaves)) :
    o = mth H (leaves.take m) ∨
      H.Collides (roots_preimages H old m leaves.length true ps ++
        (mth_preimages H leaves ++ mth_preimages H (leaves.take m))) := by
  have honest : roots H (mth H (leaves.take m)) m leaves.length true (proof H m leaves).reverse =
      some (mth H (leaves.take m), mth H leaves) :=
    roots_subproof hpos hm fun _ => rfl
  rcases roots_binding hpos h honest with ⟨hold, _⟩ | hcoll
  · exact .inl hold
  · refine .inr (hcoll.mono ?_)
    exact List.append_subset.mpr ⟨List.subset_append_left _ _,
      List.Subset.trans (roots_preimages_subproof_subset hpos hm fun _ => rfl) (List.subset_append_right _ _)⟩

/-- The subtree around an index below `m` that a consistency proof shares between the
trees forces the two audit paths of the index to start from one leaf hash. -/
theorem climb_eq_of_roots {old o new hash₁ hash₂ : D} {m n i : Nat} {b : Bool}
    {ps siblings₁ siblings₂ : List D} (hi : i < m)
    (h : roots H old m n b ps = some (o, new)) (h₁ : climb H hash₁ i m siblings₁ = some o)
    (h₂ : climb H hash₂ i n siblings₂ = some new) :
    hash₁ = hash₂ ∨
      H.Collides (roots_preimages H old m n b ps ++
        (climb_preimages H hash₁ i m siblings₁ ++ climb_preimages H hash₂ i n siblings₂)) := by
  induction ps generalizing o new m n i b siblings₁ siblings₂ with
  | nil =>
    cases rootsStep_of_roots_eq_some h with
    | anchored hmn _ _ hr =>
      simp only [Prod.mk.injEq] at hr
      obtain ⟨rfl, rfl⟩ := hr
      subst hmn
      rcases climb_binding hi h₁ h₂ with ⟨hhash, _⟩ | hcoll
      · exact .inl hhash
      · exact .inr (hcoll.mono (List.subset_append_right _ _))
    | shared _ _ _ hps => cases hps
    | left _ _ _ _ _ hps => cases hps
    | right _ _ _ _ _ hps => cases hps
  | cons p ps ih =>
    cases rootsStep_of_roots_eq_some h with
    | anchored _ _ hps => cases hps
    | shared hash hmn _ _ hr =>
      simp only [Prod.mk.injEq] at hr
      obtain ⟨rfl, rfl⟩ := hr
      subst hmn
      rcases climb_binding hi h₁ h₂ with ⟨hhash, _⟩ | hcoll
      · exact .inl hhash
      · exact .inr (hcoll.mono (List.subset_append_right _ _))
    | left q rest inner hside hn hps hinner hr hpre =>
      obtain ⟨rfl, rfl⟩ := List.cons.inj hps
      simp only [Prod.mk.injEq] at hr
      obtain ⟨s, tail, c, rfl, ⟨_, hclimb, hroot, hpre₂⟩ | ⟨hright, _⟩⟩ :=
        exists_of_climb_eq_some (by omega) h₂
      · rw [hpre, ← hpre₂]
        rcases H.node_eq_or_collides (hr.2.symm.trans hroot) with ⟨hnew, _⟩ | hcoll
        · rcases ih hi hinner (by rw [← hr.1, h₁]) (by rw [hclimb, hnew]) with hhash | hcoll
          · exact .inl hhash
          · refine .inr (hcoll.mono fun x hx => ?_)
            rcases List.mem_append.mp hx with hx | hx
            · simp [hx]
            · rcases List.mem_append.mp hx with hx | hx <;> simp [hx]
        · exact .inr (hcoll.mono (by simp))
      · omega
    | right q rest inner hside hn hps hinner hr hpre =>
      obtain ⟨rfl, rfl⟩ := List.cons.inj hps
      simp only [Prod.mk.injEq] at hr
      have hpos := split_pos n
      have hsplit := split_eq_of_between hside hn.le
      obtain ⟨s₁, tail₁, c₁, rfl, hside₁⟩ := exists_of_climb_eq_some (by omega) h₁
      obtain ⟨s₂, tail₂, c₂, rfl, hside₂⟩ := exists_of_climb_eq_some (by omega) h₂
      rw [hsplit] at hside₁
      rcases hside₁ with ⟨hleft, hclimb₁, hroot₁, hpre₁⟩ | ⟨hright, hclimb₁, hroot₁, hpre₁⟩
      · -- the index lies in the left subtree, which both trees have whole
        obtain ⟨_, hclimb₂, hroot₂, hpre₂⟩ | ⟨hright, _⟩ := hside₂
        · rw [hpre, ← hpre₁, ← hpre₂]
          rcases H.node_eq_or_collides (hr.1.symm.trans hroot₁) with ⟨hsame₁, _⟩ | hcoll
          · rcases H.node_eq_or_collides (hr.2.symm.trans hroot₂) with ⟨hsame₂, _⟩ | hcoll
            · rcases climb_binding hleft hclimb₁ (by rw [hclimb₂, ← hsame₂, hsame₁]) with ⟨hhash, _⟩ | hcoll
              · exact .inl hhash
              · refine .inr (hcoll.mono fun x hx => ?_)
                rcases List.mem_append.mp hx with hx | hx <;> simp [hx]
            · exact .inr (hcoll.mono (by simp))
          · exact .inr (hcoll.mono (by simp))
        · omega
      · obtain ⟨hleft, _⟩ | ⟨_, hclimb₂, hroot₂, hpre₂⟩ := hside₂
        · omega
        · rw [hpre, ← hpre₁, ← hpre₂]
          rcases H.node_eq_or_collides (hr.1.symm.trans hroot₁) with ⟨_, hsame₁⟩ | hcoll
          · rcases H.node_eq_or_collides (hr.2.symm.trans hroot₂) with ⟨_, hsame₂⟩ | hcoll
            · rcases ih (i := i - split n) (by omega) hinner (by rw [hclimb₁, hsame₁])
                (by rw [hclimb₂, hsame₂]) with hhash | hcoll
              · exact .inl hhash
              · refine .inr (hcoll.mono fun x hx => ?_)
                rcases List.mem_append.mp hx with hx | hx
                · simp [hx]
                · rcases List.mem_append.mp hx with hx | hx <;> simp [hx]
            · exact .inr (hcoll.mono (by simp))
          · exact .inr (hcoll.mono (by simp))

/-- Equal hashes of two trees of one size have equal leaves, or two of the nodes collide. -/
theorem mth_binding {leaves leaves' : List α} (hlength : leaves.length = leaves'.length)
    (h : mth H leaves = mth H leaves') :
    leaves = leaves' ∨ H.Collides (mth_preimages H leaves ++ mth_preimages H leaves') := by
  induction hn : leaves.length using Nat.strong_induction_on generalizing leaves leaves' with
  | _ n ih =>
    subst hn
    match leaves, leaves', hlength with
    | [], [], _ => exact .inl rfl
    | [data], [data'], _ =>
      simp only [mth_singleton] at h
      by_cases hdata : data = data'
      · exact .inl (by rw [hdata])
      · exact .inr ⟨.leaf data, by simp [mth_preimages], .leaf data', by simp [mth_preimages], by simpa using hdata, h⟩
    | a :: b :: rest, a' :: b' :: rest', hlength =>
      have htwo : 2 ≤ (a :: b :: rest).length := by simp
      have htwo' : 2 ≤ (a' :: b' :: rest').length := by simp
      have hlt := split_lt htwo
      have hpos := split_pos (a :: b :: rest).length
      rw [mth_split H htwo, mth_split H htwo', ← hlength] at h
      rw [mth_preimages_split H htwo, mth_preimages_split H htwo', ← hlength]
      generalize a :: b :: rest = xs, a' :: b' :: rest' = ys at *
      rcases H.node_eq_or_collides h with ⟨hleft, hright⟩ | hcoll
      · rcases ih _ (by simp only [List.length_take]; omega) (by simp [hlength]) hleft rfl with htake | hcoll
        · rcases ih _ (by simp only [List.length_drop]; omega) (by simp [hlength]) hright rfl with hdrop | hcoll
          · exact .inl (by rw [← List.take_append_drop (split xs.length) xs, htake, hdrop, List.take_append_drop])
          · refine .inr (hcoll.mono fun p hp => ?_)
            rcases List.mem_append.mp hp with hp | hp <;> simp [hp]
        · refine .inr (hcoll.mono fun p hp => ?_)
          rcases List.mem_append.mp hp with hp | hp <;> simp [hp]
      · exact .inr (hcoll.mono (by simp))

end rfc6962
