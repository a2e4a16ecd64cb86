import Lys.Log.Failure
import Lys.Posix.Runs

open rust effect posix

namespace lys

section Crash

variable [Sha2] [Base64] [StandardBase64] [SerdeJson LogConfig] [SerdeJson LogState] [LawfulSerdeJson LogState]
  [RustFmt] [CtMerkle] [Rfc6962CtMerkle] [BuildProfile] {Who Event : Type} {who : Who} {dir : Path}
  {v v' : Path → Option Entry} {leaves leaves' : List Bytes} {leaf : Bytes} {w w' : World Who Event} {store : LogStore}
  {choices : List Choice}

section Append

omit [Sha2] [Base64] [StandardBase64] [SerdeJson LogConfig] [SerdeJson LogState] [LawfulSerdeJson LogState] [RustFmt]
  [CtMerkle] [Rfc6962CtMerkle] [BuildProfile] in
/-- What a directory lists with a further leaf file are its leaves and that file's. -/
theorem Listed.eq_append (h : Listed v dir leaves)
    (hleaf : v' (leaf_path dir (UInt64.ofNat leaves.length)) = some (.file leaf))
    (helsewhere : ∀ q, q ≠ leaf_path dir (UInt64.ofNat leaves.length) → v' q = v q) (h' : Listed v' dir leaves') :
    leaves' = leaves ++ [leaf] := by
  have hmax : MAX_LEAVES + 1 < 2 ^ 64 := by decide
  have hroom := h.room
  have hlt : leaves.length < leaves'.length := by
    refine (h'.isSome_iff h.lt).mp ?_
    rw [hleaf]
    exact Option.some_ne_none _
  have hle : leaves'.length ≤ leaves.length + 1 := by
    by_contra hlonger
    have hsome := (h'.isSome_iff (show leaves.length + 1 < 2 ^ 64 by omega)).mpr (by omega)
    rw [helsewhere] at hsome
    · have hmore := (h.isSome_iff (show leaves.length + 1 < 2 ^ 64 by omega)).mp hsome
      omega
    · intro heq
      have hsame := ofNat_inj (show leaves.length + 1 < 2 ^ 64 by omega) h.lt (leaf_path_injective heq)
      omega
  have hroom' := h'.room
  exact h'.unique (h.append (by omega) hleaf helsewhere)

omit [StandardBase64] [Rfc6962CtMerkle] [BuildProfile] [SerdeJson LogConfig] [LawfulSerdeJson LogState] in
/-- An append through its calls. -/
theorem append_eq (store : LogStore) (leaf : Bytes) :
    ∃ next rest, (store.append leaf : Process Who Event _) = .op (.create_new (leaf_path store.dir store.tree.len)) next ∧
      (∀ inode, next (.ok inode) = (fs.write_all inode leaf.length 0 (leaf.drop 0)).attempt >>= rest) ∧
      (∀ e, ∃ e', rest (.error e) = pure (store, .error e')) ∧
      (rest (.ok ()) = .panic ∨ ∃ finish, rest (.ok ()) = (write_state store.dir (store.push leaf).tree.root).attempt >>= finish ∧
        ∀ r, ∃ reply, finish r = pure (store.push leaf, reply)) := by
  refine ⟨_, _, rfl, fun _ => rfl, fun e => ⟨_, rfl⟩, ?_⟩
  change (if store.leaves.length + 1 > MAX_LEAVES then _ else _) = _ ∨ ∃ _, (if store.leaves.length + 1 > MAX_LEAVES then _ else _) = _ ∧ _
  split
  · exact .inl rfl
  · refine .inr ⟨_, rfl, fun r => ?_⟩
    cases r with
    | ok u => exact ⟨_, rfl⟩
    | error e => exact ⟨_, rfl⟩

omit [StandardBase64] [Rfc6962CtMerkle] [BuildProfile] in
/-- Where an append stops: nothing happened unless its leaf file was created, and then that file
holds what was stored of the leaf. The state is rewritten behind a whole leaf only. -/
theorem Attached.run_append (h : Attached dir store w) :
    (choices.head? ≠ some .proceed → (run who (store.append leaf) choices w).state = w) ∧
      (choices.head? = some .proceed → ∃ inode w₁,
        Created (leaf_path dir store.tree.len) w inode (leaf.take (stored_count leaf.length choices.tail)) w₁ ∧
          Beside dir w₁ (run who (store.append leaf) choices w).state ∧
          (stored_count leaf.length choices.tail ≠ leaf.length → (run who (store.append leaf) choices w).state = w₁)) := by
  obtain rfl := h.dir_eq
  cases choices with
  | nil => exact ⟨fun _ => rfl, by rintro ⟨⟩⟩
  | cons choice choices =>
    cases choice with
    | proceed =>
      refine ⟨fun hne => absurd rfl hne, fun _ => ?_⟩
      have hnone : w.fs.view (leaf_path store.dir store.tree.len) = none := by
        rw [store.tree_len]
        by_contra hsome
        exact absurd ((h.settled.listed.isSome_iff h.settled.listed.lt).mp hsome) (lt_irrefl _)
      have hparent : w.fs.find (leaf_path store.dir store.tree.len).dropLast = some .directory := by
        rw [leaf_path_eq, List.dropLast_concat, ← Fs.view_eq_directory_iff]
        exact h.settled.listed.directory
      obtain ⟨⟨inode, made⟩, hmade⟩ := Fs.exists_create_new_eq_ok hparent (Fs.view_eq_none_iff.mp hnone)
      have hcreated : Created (leaf_path store.dir store.tree.len) w inode []
          (⟨made, (who, .create_new (leaf_path store.dir store.tree.len)) :: w.trace⟩ : World Who Event) :=
        Created.create_new hmade rfl
      obtain ⟨next, rest, happend, hnext, hunwritten, hwritten⟩ := @append_eq _ _ _ _ _ Who Event store leaf
      have happly : apply who (.create_new (leaf_path store.dir store.tree.len)) .proceed w =
          some (.ok inode, ⟨made, (who, .create_new (leaf_path store.dir store.tree.len)) :: w.trace⟩) := by
        rw [apply, World.attempt, hmade]
        rfl
      rw [happend, run]
      simp only [happly, hnext, List.tail_cons]
      -- the run of the writes, and where the append goes on from there
      obtain ⟨⟨_, hfilled⟩, hdone⟩ := @run_write_all _ _ who _ choices leaf inode
        (fun k w' => k ≤ leaf.length ∧ Created (leaf_path store.dir store.tree.len) w inode (leaf.take k) w') 0 leaf.length
        (fun k count w' hw' hle => ⟨hle, hw'.2.stored who hle⟩) (Nat.zero_le _) (Nat.le_add_left ..)
        ⟨Nat.zero_le _, hcreated⟩
      rw [Nat.zero_add, Nat.sub_zero] at hfilled hdone
      have hstops : stored_count leaf.length choices ≠ leaf.length → _ := fun hpart =>
        @state_run_attempt_bind _ _ _ _ _ who _ choices _ rest fun r hr choices w' => by
          cases r with
          | ok u => exact absurd (hdone.mp (hr u rfl)) hpart
          | error e =>
            obtain ⟨e', he'⟩ := hunwritten e
            rw [he', Prog.pure_eq, run_ret]
      refine ⟨inode, _, hfilled, ?_, hstops⟩
      by_cases hwhole : stored_count leaf.length choices = leaf.length
      · rw [run_attempt_bind_of_done (hdone.mpr hwhole)]
        obtain hpanic | ⟨finish, hfinish, hreturns⟩ := hwritten
        · rw [hpanic, run_panic]
          exact .refl _ _
        · rw [hfinish, state_run_attempt_bind fun r _ choices w' => ?_]
          · exact beside_run_write_state
          · obtain ⟨reply, hreply⟩ := hreturns r
            rw [hreply, Prog.pure_eq, run_ret]
      · rw [hstops hwhole]
        exact .refl _ _
    | fault => exact ⟨fun _ => rfl, by rintro ⟨⟩⟩
    | stores => exact ⟨fun _ => rfl, by rintro ⟨⟩⟩
    | lists => exact ⟨fun _ => rfl, by rintro ⟨⟩⟩
    | cut => exact ⟨fun _ => rfl, by rintro ⟨⟩⟩

omit [StandardBase64] [Rfc6962CtMerkle] [BuildProfile] in
/-- An append whose writes are cut short leaves what was stored, and nothing else. -/
theorem Attached.run_append_cut (h : Attached dir store w) (hcreate : choices.head? = some .proceed)
    (hcut : stored_count leaf.length choices.tail ≠ leaf.length) :
    ∃ inode, Created (leaf_path dir store.tree.len) w inode (leaf.take (stored_count leaf.length choices.tail))
      (run who (store.append leaf) choices w).state := by
  obtain ⟨inode, w₁, hcreated, _, hstops⟩ := h.run_append.2 hcreate
  rw [← hstops hcut] at hcreated
  exact ⟨inode, hcreated⟩

omit [StandardBase64] [BuildProfile] [Rfc6962CtMerkle] in
/-- What can be listed once an append stopped that created its leaf file. -/
theorem Attached.listed_of_stopped (h : Attached dir store w) (hcreate : choices.head? = some .proceed)
    (hlisted : Listed (run who (store.append leaf) choices w).state.fs.view dir leaves) :
    leaves = store.leaves ++ [leaf.take (stored_count leaf.length choices.tail)] := by
  obtain ⟨inode, w₁, hcreated, hbeside, _⟩ := h.run_append.2 hcreate
  rw [hbeside.listed_iff (h.apart.created hcreated)] at hlisted
  rw [store.tree_len] at hcreated
  exact h.settled.listed.eq_append hcreated.view hcreated.view_eq hlisted

omit [StandardBase64] [BuildProfile] [Rfc6962CtMerkle] in
/-- The temporary file stays apart. -/
theorem Attached.apart_of_stopped (h : Attached dir store w) : Apart (run who (store.append leaf) choices w).state.fs dir := by
  by_cases hcreate : choices.head? = some .proceed
  · obtain ⟨inode, w₁, hcreated, hbeside, _⟩ := h.run_append.2 hcreate
    exact hbeside.apart (h.apart.created hcreated)
  · rw [h.run_append.1 hcreate]
    exact h.apart

end Append

section Reopened

/-- What openings make of a world that they find: each runs alone, and may fail or crash. -/
inductive Retried (dir : Path) (w : World Who Event) : World Who Event → Prop where
  | refl : Retried dir w w
  | opened {w' : World Who Event} (h : Retried dir w w') (who : Who) (choices : List Choice) :
    Retried dir w (run who (LogStore.openLog dir) choices w').state

omit [Sha2] [Rfc6962CtMerkle] [StandardBase64] in
/-- Openings leave the leaves as they are. -/
theorem Retried.listed_iff (h : Retried dir w w') (hapart : Apart w.fs dir) :
    (Listed w'.fs.view dir leaves ↔ Listed w.fs.view dir leaves) ∧ Apart w'.fs dir := by
  induction h with
  | refl => exact ⟨Iff.rfl, hapart⟩
  | opened h who choices ih =>
    obtain ⟨hbeside, _⟩ := beside_run_open
    exact ⟨(hbeside.listed_iff ih.2).trans ih.1, hbeside.apart ih.2⟩

omit [Sha2] [Rfc6962CtMerkle] [StandardBase64] in
/-- And everything, where a directory has the name of the temporary file. -/
theorem Retried.eq_of_directory (h : Retried dir w w') (htmp : w.fs.find (tmp_path dir) = some .directory) : w' = w := by
  induction h with
  | refl => rfl
  | opened h who choices ih =>
    rw [ih]
    exact beside_run_open.2 htmp

/-- Wherever an append through a handle stops, the next open that succeeds, behind any number of
others, gives the leaves with or without the leaf. This is so exactly where the writes of a leaf
file that was created are not cut short, or no open can succeed over a further leaf. -/
theorem append_crash_atomic_iff (h : Session who dir store w) :
    (∀ w' reader reading store', Retried dir (run who (store.append leaf) choices w).state w' →
      (run reader (LogStore.openLog dir) reading w').outcome = some (.done store') →
        store'.leaves = store.leaves ∨ store'.leaves = store.leaves ++ [leaf]) ↔
    (choices.head? = some .proceed → stored_count leaf.length choices.tail = leaf.length) ∨
      store.leaves.length = MAX_LEAVES ∨ w.fs.find (tmp_path dir) = some .directory := by
  have hattached := h.attached
  have hsize : (UInt64.ofNat store.leaves.length).toNat = store.leaves.length :=
    toNat_ofNat_of_lt hattached.settled.listed.lt
  constructor
  · intro hatomic
    by_contra hcondition
    rw [not_or, not_or, Classical.not_imp] at hcondition
    obtain ⟨⟨hcreate, hcut⟩, hfull, hclear⟩ := hcondition
    have hroom : store.leaves.length < MAX_LEAVES := lt_of_le_of_ne hattached.settled.listed.room hfull
    obtain ⟨inode, hcreated⟩ : ∃ inode, Created (leaf_path dir store.tree.len) w inode
        (leaf.take (stored_count leaf.length choices.tail)) (run who (store.append leaf) choices w).state :=
      hattached.run_append_cut hcreate hcut
    -- the part of the leaf is one leaf more than the state pins
    have hlisted : Listed (run who (store.append leaf) choices w).state.fs.view dir
        (store.leaves ++ [leaf.take (stored_count leaf.length choices.tail)]) := by
      rw [store.tree_len] at hcreated
      exact hattached.settled.listed.append hroom hcreated.view hcreated.view_eq
    have hopens : Opens (run who (store.append leaf) choices w).state.fs.view dir (UInt64.ofNat store.leaves.length)
        (rfc6962.mth sha256_hasher store.leaves) (store.leaves ++ [leaf.take (stored_count leaf.length choices.tail)]) := by
      refine ⟨hlisted, .inr ⟨by simp [hsize], by simp [hsize], fun htmp => hclear ?_⟩⟩
      rw [← hcreated.find_eq _ tmp_path_ne_leaf_path]
      exact Fs.view_eq_directory_iff.mp htmp
    obtain ⟨hunique, hcompletes⟩ := @open_decides _ _ _ _ _ _ who _ _ _ _ _ _ _ _ _ _ _
      (hattached.settled.config.created hcreated) (hattached.settled.state.created hcreated)
    obtain ⟨reading, _, out, hout, ⟨leaves, store', hopened, rfl, hhandle, _⟩ | ⟨hnone, _⟩⟩ := hcompletes.exists_run
    · have hleaves := hatomic _ who reading store' .refl hout
      rw [hhandle.leaves_eq, hunique _ _ hopened hopens] at hleaves
      obtain hsame | hsame := hleaves
      · simp at hsame
      · have hwhole := congrArg List.length (List.singleton_inj.mp (List.append_cancel_left hsame))
        have hle := stored_count_le leaf.length choices.tail
        rw [List.length_take] at hwhole
        omega
    · exact hnone _ hopens
  · intro hcondition w' reader reading store' hretried hopen
    obtain ⟨size, root, hstate, hlisted', hmatch⟩ := opens_of_open hopen
    have hlisted := (hretried.listed_iff hattached.apart_of_stopped).1.mp hlisted'
    by_cases hcreate : choices.head? = some .proceed
    · have hleaves := hattached.listed_of_stopped hcreate hlisted
      by_cases hwhole : stored_count leaf.length choices.tail = leaf.length
      · rw [hwhole, List.take_length] at hleaves
        exact .inr hleaves
      · exfalso
        have hlength := congrArg List.length hleaves
        rw [List.length_append, List.length_singleton] at hlength
        obtain hwhole' | hfull | htmp := hcondition
        · exact hwhole (hwhole' hcreate)
        · have hroom := hlisted.room
          omega
        · obtain ⟨inode, hcreated⟩ : ∃ inode, Created (leaf_path dir store.tree.len) w inode
              (leaf.take (stored_count leaf.length choices.tail)) (run who (store.append leaf) choices w).state :=
            hattached.run_append_cut hcreate hwhole
          rw [← hcreated.find_eq _ tmp_path_ne_leaf_path] at htmp
          rw [hretried.eq_of_directory htmp] at hstate hmatch
          obtain ⟨rfl, rfl⟩ := hstate.unique (hattached.settled.state.created hcreated)
          obtain ⟨hpinned, _⟩ | ⟨_, _, hclear⟩ := hmatch
          · omega
          · exact hclear (Fs.view_eq_directory_iff.mpr htmp)
    · rw [hattached.run_append.1 hcreate] at hlisted
      exact .inl (hlisted.unique hattached.settled.listed)

end Reopened

end Crash

section

open reference

/-- A crash behind the first byte of the leaf "yz": the next open takes "y" for a second leaf. -/
theorem append_cut_short : Session () log_dir one_leaf_store reopened ∧
    ∃ store, (run () (LogStore.openLog log_dir) recovery
        (run () (one_leaf_store.append [0x79, 0x7a]) [.proceed, .stores 1] reopened).state).outcome = some (.done store) ∧
      store.leaves = [[0x78], [0x79]] ∧
      ¬ (store.leaves = one_leaf_store.leaves ∨ store.leaves = one_leaf_store.leaves ++ [[0x79, 0x7a]]) := by
  have hopen : leaves_of (run () (LogStore.openLog log_dir) recovery
      (run () (one_leaf_store.append [0x79, 0x7a]) [.proceed, .stores 1] reopened).state).outcome =
      some [[0x78], [0x79]] := by decide +kernel
  obtain ⟨store, hstore, hleaves⟩ := exists_of_leaves_of hopen
  refine ⟨session_one_leaf, store, hstore, hleaves, ?_⟩
  rw [hleaves]
  decide

/-- A crash behind both of its bytes: the next open takes the whole leaf. -/
theorem append_crash_atomic_both_bytes :
    ∃ store, (run () (LogStore.openLog log_dir) recovery
        (run () (one_leaf_store.append [0x79, 0x7a]) [.proceed, .stores 1, .stores 1] reopened).state).outcome =
          some (.done store) ∧
      (store.leaves = one_leaf_store.leaves ∨ store.leaves = one_leaf_store.leaves ++ [[0x79, 0x7a]]) := by
  have hopen : leaves_of (run () (LogStore.openLog log_dir) recovery
      (run () (one_leaf_store.append [0x79, 0x7a]) [.proceed, .stores 1, .stores 1] reopened).state).outcome =
      some [[0x78], [0x79, 0x7a]] := by decide +kernel
  obtain ⟨store, hstore, _⟩ := exists_of_leaves_of hopen
  exact ⟨store, hstore, (append_crash_atomic_iff session_one_leaf).mpr (.inl fun _ => rfl) _ () recovery store .refl hstore⟩

end

end lys
