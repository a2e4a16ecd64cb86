import Lys.Rfc6962.Soundness

namespace rfc6962

variable {α D : Type}

/-- A tree of `n` leaves extends one of `m`: what the two roots share, whatever the proof of it was,
with the nodes that tie the one to the other. -/
inductive Extends (H : Hasher α D) : Nat → Nat → D → D → List (Preimage α D) → Prop where
  | refl (n : Nat) (root : D) : Extends H n n root root []
  | left {m n : Nat} {old new : D} {nodes : List (Preimage α D)} (right : D) (hm : m ≤ split n) (hn : m < n)
    (h : Extends H m (split n) old new nodes) : Extends H m n old (H.node new right) (.node new right :: nodes)
  | right {m n : Nat} {old new : D} {nodes : List (Preimage α D)} (left : D) (hm : split n < m) (hn : m < n)
    (h : Extends H (m - split n) (n - split n) old new nodes) :
    Extends H m n (H.node left old) (H.node left new) (.node left old :: .node left new :: nodes)

variable {H : Hasher α D} {m n k i : Nat} {old old' mid new : D} {nodes nodes' : List (Preimage α D)}

/-- What a consistency proof shows. -/
theorem extends_of_roots {o anchor : D} {b : Bool} {ps : List D} (h : roots H anchor m n b ps = some (o, new)) :
    Extends H m n o new (roots_preimages H anchor m n b ps) := by
  induction ps generalizing o new m n b with
  | nil =>
    cases rootsStep_of_roots_eq_some h with
    | anchored hmn _ _ hr =>
      obtain ⟨rfl, rfl⟩ := Prod.mk.inj hr
      subst hmn
      exact .refl _ _
    | shared _ _ _ hps => cases hps
    | left _ _ _ _ _ hps => cases hps
    | right _ _ _ _ _ hps => cases hps
  | cons p ps ih =>
    cases rootsStep_of_roots_eq_some h with
    | anchored _ _ hps => cases hps
    | shared hash hmn _ _ hr =>
      obtain ⟨rfl, rfl⟩ := Prod.mk.inj hr
      subst hmn
      rw [roots_preimages, if_pos le_rfl]
      exact .refl _ _
    | left q rest inner hside hn hps hinner hr hpre =>
      obtain ⟨rfl, rfl⟩ := List.cons.inj hps
      obtain ⟨rfl, rfl⟩ := Prod.mk.inj hr
      rw [hpre]
      exact .left _ hside hn (ih hinner)
    | right q rest inner hside hn hps hinner hr hpre =>
      obtain ⟨rfl, rfl⟩ := List.cons.inj hps
      obtain ⟨rfl, rfl⟩ := Prod.mk.inj hr
      rw [hpre]
      exact .right _ hside hn (ih hinner)

theorem Extends.le (h : Extends H m n old new nodes) : m ≤ n := by
  cases h with
  | refl => exact le_rfl
  | left _ _ hn => exact hn.le
  | right _ _ hn => exact hn.le

/-- A tree extends no other tree of its own size. -/
theorem Extends.eq (h : Extends H n n old new nodes) : old = new := by
  cases h with
  | refl => rfl
  | left _ _ hn => exact absurd hn (lt_irrefl n)
  | right _ _ hn => exact absurd hn (lt_irrefl n)

/-- An extension of an extension extends the first tree, unless two of the nodes collide. -/
theorem Extends.trans (h : Extends H m n old mid nodes) (h' : Extends H n k mid new nodes') :
    (∃ nodes'', Extends H m k old new nodes'' ∧ nodes'' ⊆ nodes ++ nodes') ∨ H.Collides (nodes ++ nodes') := by
  induction h' generalizing m old nodes with
  | refl => exact .inl ⟨nodes, h, List.subset_append_left _ _⟩
  | left p hside hlt hinner ih =>
    rcases ih h with ⟨nodes'', hextends, hsubset⟩ | hcoll
    · have hle := h.le
      refine .inl ⟨_, .left p (by omega) (by omega) hextends, fun x hx => ?_⟩
      rcases List.mem_cons.mp hx with rfl | hx
      · simp
      · rcases List.mem_append.mp (hsubset hx) with hx | hx <;> simp [hx]
    · refine .inr (hcoll.mono fun x hx => ?_)
      rcases List.mem_append.mp hx with hx | hx <;> simp [hx]
  | @right n k mid new nodes' p hside hlt hinner ih =>
    generalize hroot : H.node p mid = root at h
    have hsplit := split_eq_of_between hside hlt.le
    cases h with
    | refl =>
      subst hroot
      exact .inl ⟨_, .right p hside hlt hinner, List.subset_append_right _ _⟩
    | left q hm hn hold =>
      rcases H.node_eq_or_collides hroot with ⟨rfl, _⟩ | hcoll
      · rw [hsplit] at hold hm
        refine .inl ⟨_, .left new hm (hn.trans hlt) hold, fun x hx => ?_⟩
        rcases List.mem_cons.mp hx with rfl | hx <;> simp [*]
      · exact .inr (hcoll.mono (by simp))
    | right q hm hn hold =>
      rcases H.node_eq_or_collides hroot with ⟨rfl, rfl⟩ | hcoll
      · rw [hsplit] at hold hm
        rcases ih hold with ⟨nodes'', hextends, hsubset⟩ | hcoll
        · refine .inl ⟨_, .right p hm (hn.trans hlt) hextends, fun x hx => ?_⟩
          rcases List.mem_cons.mp hx with rfl | hx
          · simp
          · rcases List.mem_cons.mp hx with rfl | hx
            · simp
            · rcases List.mem_append.mp (hsubset hx) with hx | hx <;> simp [hx]
        · refine .inr (hcoll.mono fun x hx => ?_)
          rcases List.mem_append.mp hx with hx | hx <;> simp [hx]
      · exact .inr (hcoll.mono (by simp))

/-- Of two trees with a common extension, the larger extends the smaller, unless two of the nodes collide. -/
theorem Extends.between (h : Extends H m k old new nodes) (h' : Extends H n k old' new nodes') (hle : m ≤ n) :
    (∃ nodes'', Extends H m n old old' nodes'' ∧ nodes'' ⊆ nodes ++ nodes') ∨ H.Collides (nodes ++ nodes') := by
  induction h' generalizing m old nodes with
  | refl => exact .inl ⟨nodes, h, List.subset_append_left _ _⟩
  | @left n k _ new _ p hside hlt hinner ih =>
    generalize hroot : H.node new p = root at h
    cases h with
    | refl => omega
    | left q hm hn hold =>
      rcases H.node_eq_or_collides hroot with ⟨rfl, _⟩ | hcoll
      · rcases ih hold hle with ⟨nodes'', hextends, hsubset⟩ | hcoll
        · refine .inl ⟨nodes'', hextends, fun x hx => ?_⟩
          rcases List.mem_append.mp (hsubset hx) with hx | hx <;> simp [hx]
        · refine .inr (hcoll.mono fun x hx => ?_)
          rcases List.mem_append.mp hx with hx | hx <;> simp [hx]
      · exact .inr (hcoll.mono (by simp))
    | right q hm hn hold => omega
  | @right n k old' new _ p hside hlt hinner ih =>
    generalize hroot : H.node p new = root at h
    have hsplit := split_eq_of_between hside hlt.le
    cases h with
    | refl => omega
    | left q hm hn hold =>
      rcases H.node_eq_or_collides hroot with ⟨rfl, _⟩ | hcoll
      · rw [← hsplit] at hold hm
        refine .inl ⟨_, .left old' hm (by omega) hold, fun x hx => ?_⟩
        rcases List.mem_cons.mp hx with rfl | hx <;> simp [*]
      · exact .inr (hcoll.mono (by simp))
    | right q hm hn hold =>
      rcases H.node_eq_or_collides hroot with ⟨rfl, rfl⟩ | hcoll
      · rcases ih hold (by omega) with ⟨nodes'', hextends, hsubset⟩ | hcoll
        · rcases hle.eq_or_lt with rfl | hlt'
          · obtain rfl := hextends.eq
            exact .inl ⟨[], .refl _ _, List.nil_subset _⟩
          · rw [← hsplit] at hextends hm
            refine .inl ⟨_, .right p hm hlt' hextends, fun x hx => ?_⟩
            rcases List.mem_cons.mp hx with rfl | hx
            · simp
            · rcases List.mem_cons.mp hx with rfl | hx
              · simp
              · rcases List.mem_append.mp (hsubset hx) with hx | hx <;> simp [hx]
        · refine .inr (hcoll.mono fun x hx => ?_)
          rcases List.mem_append.mp hx with hx | hx <;> simp [hx]
      · exact .inr (hcoll.mono (by simp))

/-- Below the root of known leaves, the old root is that of the first `m`, unless two of the nodes collide. -/
theorem Extends.sound {leaves : List α} (h : Extends H m n old (mth H leaves) nodes) (hpos : 1 ≤ m)
    (hlength : leaves.length = n) :
    old = mth H (leaves.take m) ∨ H.Collides (nodes ++ mth_preimages H leaves) := by
  generalize hroot : mth H leaves = root at h
  induction h generalizing leaves with
  | refl =>
    rw [← hlength, List.take_length]
    exact .inl hroot.symm
  | left p hside hlt hinner ih =>
    subst hlength
    have htwo : 2 ≤ leaves.length := by omega
    have hsplit := split_lt htwo
    rw [mth_split H htwo] at hroot
    rw [mth_preimages_split H htwo]
    rcases H.node_eq_or_collides hroot with ⟨hleft, _⟩ | hcoll
    · rcases ih hpos (by simp [hsplit.le]) hleft with hold | hcoll
      · rw [List.take_take, min_eq_left hside] at hold
        exact .inl hold
      · refine .inr (hcoll.mono fun x hx => ?_)
        rcases List.mem_append.mp hx with hx | hx <;> simp [hx]
    · exact .inr (hcoll.mono (by simp))
  | @right m n _ _ _ p hside hlt hinner ih =>
    subst hlength
    have htwo : 2 ≤ leaves.length := by omega
    have hsplit := split_lt htwo
    rw [mth_split H htwo] at hroot
    rw [mth_preimages_split H htwo]
    rcases H.node_eq_or_collides hroot with ⟨rfl, hright⟩ | hcoll
    · rcases ih (by omega) (by simp) hright with rfl | hcoll
      · exact .inl (mth_take_split H hside hlt.le).symm
      · refine .inr (hcoll.mono fun x hx => ?_)
        rcases List.mem_append.mp hx with hx | hx <;> simp [hx]
    · exact .inr (hcoll.mono (by simp))

/-- A climb to the old root goes on to the new one, unless two of the nodes collide. -/
theorem Extends.exists_climb {hash : D} {siblings : List D} (h : Extends H m n old new nodes) (hi : i < m)
    (hclimb : climb H hash i m siblings = some old) :
    (∃ siblings', climb H hash i n siblings' = some new ∧
      climb_preimages H hash i n siblings' ⊆ nodes ++ climb_preimages H hash i m siblings) ∨
      H.Collides (nodes ++ climb_preimages H hash i m siblings) := by
  induction h generalizing i siblings with
  | refl => exact .inl ⟨siblings, hclimb, List.subset_append_right _ _⟩
  | left p hside hlt hinner ih =>
    rcases ih hi hclimb with ⟨siblings', hclimb', hsubset⟩ | hcoll
    · refine .inl ⟨p :: siblings', by rw [climb_left (by omega) (by omega), hclimb', Option.map_some], ?_⟩
      rw [climb_preimages, if_neg (by omega), if_pos (by omega), hclimb']
      exact List.cons_subset_cons _ hsubset
    · exact .inr (hcoll.mono (List.subset_cons_self _ _))
  | @right m n old new nodes p hside hlt hinner ih =>
    have hpos := split_pos n
    have hsplit := split_eq_of_between hside hlt.le
    obtain ⟨s, tail, c, rfl, hsides⟩ := exists_of_climb_eq_some (by omega) hclimb
    rw [hsplit] at hsides
    rcases hsides with ⟨hleft, hclimb, hroot, hpre⟩ | ⟨hright, hclimb, hroot, hpre⟩
    · -- the left subtree is whole in both trees, and the new one has its own right subtree beside it
      rw [← hpre]
      rcases H.node_eq_or_collides hroot with ⟨rfl, _⟩ | hcoll
      · refine .inl ⟨new :: tail, by rw [climb_left (by omega) hleft, hclimb, Option.map_some], ?_⟩
        rw [climb_preimages, if_neg (by omega), if_pos hleft, hclimb]
        intro x hx
        rcases List.mem_cons.mp hx with rfl | hx
        · simp
        · change x ∈ climb_preimages H hash i (split n) tail at hx
          simp [hx]
      · exact .inr (hcoll.mono (by simp))
    · rw [← hpre]
      rcases H.node_eq_or_collides hroot with ⟨rfl, rfl⟩ | hcoll
      · rcases ih (by omega) hclimb with ⟨siblings', hclimb', hsubset⟩ | hcoll
        · refine .inl ⟨p :: siblings', by rw [climb_right (by omega) hright, hclimb', Option.map_some], ?_⟩
          rw [climb_preimages, if_neg (by omega), if_neg (by omega), hclimb']
          intro x hx
          rcases List.mem_cons.mp hx with rfl | hx
          · simp
          · rcases List.mem_append.mp (hsubset hx) with hx | hx <;> simp [hx]
        · refine .inr (hcoll.mono fun x hx => ?_)
          rcases List.mem_append.mp hx with hx | hx <;> simp [hx]
      · exact .inr (hcoll.mono (by simp))

end rfc6962
