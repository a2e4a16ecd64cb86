import Lys.Log.Decision

open rust effect posix

namespace lys

section Failure

variable [Sha2] [Base64] [StandardBase64] [SerdeJson LogConfig] [SerdeJson LogState] [LawfulSerdeJson LogState]
  [RustFmt] [CtMerkle] [Rfc6962CtMerkle] [BuildProfile] {Who Event : Type} {who : Who} {dir : Path}
  {v v' : Path → Option Entry} {leaves : List Bytes} {leaf : Bytes} {w w' : World Who Event} {store store' : LogStore}
  {choices : List Choice}

section Attached

omit [Sha2] [Base64] [StandardBase64] [SerdeJson LogConfig] [SerdeJson LogState] [LawfulSerdeJson LogState] [RustFmt]
  [CtMerkle] [Rfc6962CtMerkle] [BuildProfile] in
/-- A further leaf file is listed after the others. -/
theorem Listed.append (h : Listed v dir leaves) (hroom : leaves.length < MAX_LEAVES)
    (hleaf : v' (leaf_path dir (UInt64.ofNat leaves.length)) = some (.file leaf))
    (helsewhere : ∀ q, q ≠ leaf_path dir (UInt64.ofNat leaves.length) → v' q = v q) :
    Listed v' dir (leaves ++ [leaf]) := by
  have hmax : MAX_LEAVES < 2 ^ 64 := by decide
  refine ⟨by simpa using hroom, ?_, fun i bytes hi => ?_, fun name hhidden hsome => ?_⟩
  · rw [helsewhere _ leaves_dir_ne_leaf_path, h.directory]
  · obtain hlt | rfl | hgt := lt_trichotomy i leaves.length
    · rw [List.getElem?_append_left hlt] at hi
      rw [helsewhere, h.files i bytes hi]
      intro heq
      have hsame := ofNat_inj (hlt.trans h.lt) h.lt (leaf_path_injective heq)
      omega
    · rw [List.getElem?_concat_length] at hi
      rw [hleaf, Option.some.inj hi]
    · rw [List.getElem?_eq_none (by simp; omega)] at hi
      cases hi
  · rw [List.length_append, List.length_singleton, mem_leaf_entries_iff]
    by_cases hname : name = leaf_entry (UInt64.ofNat leaves.length)
    · exact ⟨leaves.length, Nat.lt_succ_self _, hname⟩
    · have hne : leaves_dir dir ++ [name] ≠ leaf_path dir (UInt64.ofNat leaves.length) := by
        rw [leaf_path_eq]
        simpa using hname
      rw [helsewhere _ hne] at hsome
      obtain ⟨i, hi, rfl⟩ := mem_leaf_entries_iff.mp (h.only name hhidden hsome)
      exact ⟨i, hi.trans (Nat.lt_succ_self _), rfl⟩

omit [Sha2] [Base64] [StandardBase64] [SerdeJson LogState] [LawfulSerdeJson LogState] [RustFmt] [CtMerkle]
  [Rfc6962CtMerkle] [BuildProfile] in
/-- A new leaf file does not change the configuration. -/
theorem Configured.created {origin : Str} {index : UInt64} {inode : Nat} {bytes : Bytes}
    (h : Configured w.fs.view dir origin) (hcreated : Created (leaf_path dir index) w inode bytes w') :
    Configured w'.fs.view dir origin := by
  obtain ⟨config, hfile, hparse⟩ := h
  exact ⟨config, by rw [hcreated.view_eq _ config_path_ne_leaf_path, hfile], hparse⟩

omit [Sha2] [StandardBase64] [SerdeJson LogConfig] [LawfulSerdeJson LogState] [RustFmt] [CtMerkle] [Rfc6962CtMerkle]
  [BuildProfile] in
/-- Nor the state. -/
theorem StatePins.created {size index : UInt64} {root : U8Array 32} {inode : Nat} {bytes : Bytes}
    (h : StatePins w.fs.view dir size root) (hcreated : Created (leaf_path dir index) w inode bytes w') :
    StatePins w'.fs.view dir size root := by
  obtain ⟨state, root_hash, hfile, hstate⟩ := h
  exact ⟨state, root_hash, by rw [hcreated.view_eq _ state_path_ne_leaf_path, hfile], hstate⟩

/-- A handle has the leaves of its directory, which its state pins. -/
structure Attached (dir : Path) (store : LogStore) (w : World Who Event) : Prop where
  dir_eq : store.dir = dir
  settled : Settled w.fs.view dir store.origin store.leaves
  apart : Apart w.fs dir

omit [Sha2] [Base64] [StandardBase64] [SerdeJson LogConfig] [SerdeJson LogState] [LawfulSerdeJson LogState] [RustFmt]
  [CtMerkle] [Rfc6962CtMerkle] [BuildProfile] in
/-- A new leaf file is no other name of the temporary file. -/
theorem Apart.created {index : UInt64} {inode : Nat} {bytes : Bytes} (h : Apart w.fs dir)
    (hcreated : Created (leaf_path dir index) w inode bytes w') : Apart w'.fs dir := by
  have hnames : ∀ q, ¬ NamesTemporary w.fs dir q → ¬ NamesTemporary w'.fs dir q := by
    rintro q hapart ⟨i, hq, hfile⟩
    by_cases hleaf : q = leaf_path dir index
    · rw [hleaf, hcreated.find] at hq
      obtain rfl := Node.file.inj (Option.some.inj hq)
      exact hcreated.unnamed _ tmp_path_ne_leaf_path hfile
    · rw [hcreated.find_eq q hleaf] at hq
      rw [hcreated.find_eq _ tmp_path_ne_leaf_path] at hfile
      exact hapart ⟨i, hq, hfile⟩
  exact ⟨hnames _ h.1, fun name => hnames _ (h.2 name)⟩

omit [RustFmt] [BuildProfile] in
/-- A handle whose leaf was written and whose state was rewritten. -/
theorem Attached.push {inode : Nat} {json : Bytes} {w₁ w₂ : World Who Event}
    (h : Attached dir store w) (hroom : store.leaves.length < MAX_LEAVES)
    (hjson : StateBytes (store.push leaf).tree.root json)
    (hcreated : Created (leaf_path dir store.tree.len) w inode leaf w₁) (hrestated : Restated dir json w₁ w₂) :
    Attached dir (store.push leaf) w₂ := by
  have hlisted : Listed w₁.fs.view dir (store.push leaf).tree.leaves := by
    rw [(store.push leaf).tree_leaves]
    rw [store.tree_len] at hcreated
    exact h.settled.listed.append hroom hcreated.view hcreated.view_eq
  have hconfig : Configured w₁.fs.view dir (store.push leaf).origin := h.settled.config.created hcreated
  have hapart := h.apart.created hcreated
  have hsettled := hrestated.settled hjson hconfig hlisted hapart
  rw [(store.push leaf).tree_leaves] at hsettled
  exact ⟨h.dir_eq, hsettled, hrestated.beside.apart hapart⟩

/-- Opening a directory attaches the handle to it. -/
theorem attached_of_open (hapart : Apart w.fs dir)
    (hopen : (run who (LogStore.openLog dir) choices w).outcome = some (.done store)) :
    Attached dir store (run who (LogStore.openLog dir) choices w).state := by
  have hkeeps : Keeps who (solo (fun _ => True) false) (fun out w' => ∀ store, out = .done store →
      Attached dir store w') (LogStore.openLog dir) w := by
    refine open_solo ?_ ?_ fun _ => ⟨nofun, nofun⟩
    · rintro store size root hfound hpinned _ ⟨⟩
      obtain ⟨hlength, hroot⟩ := (matches_of_found hfound hfound.state).1.mp hpinned
      refine ⟨hfound.dir_eq, ⟨hfound.config, hfound.leaves, ?_⟩, hapart⟩
      rw [hlength, UInt64.ofNat_toNat, hroot]
      exact hfound.state
    · intro store size root hfound honeMore
      obtain ⟨json, hjson, _⟩ := exists_state_json_bytes (pinned_state store.tree.root) "log state"
      refine write_state_anywhere hjson (fun _ _ => trivial) (fun w' hrestated => ?_) fun _ _ _ => nofun
      rintro _ ⟨⟩
      have hsettled : Settled w'.fs.view dir store.origin store.leaves := by
        have hleaves := hfound.leaves
        rw [← store.tree_leaves] at hleaves ⊢
        exact hrestated.settled hjson hfound.config hleaves hapart
      exact ⟨hfound.dir_eq, hsettled, hrestated.beside.apart hapart⟩
  exact (run_solo hkeeps trivial).2 _ hopen store rfl

omit [BuildProfile] in
/-- What an append through an attached handle comes to: only where the capacity of the vectors is
reached or a directory has the name of the temporary file does it not succeed without faults. -/
theorem Attached.append {faultless : Bool} (h : Attached dir store w) :
    Keeps who (solo (fun _ => True) faultless) (fun out w' =>
      (out = .done (store.push leaf, .ok (store.tree.len, raw_leaf_hash leaf)) ∧ Attached dir (store.push leaf) w' ∧
        store.leaves.length < MAX_LEAVES ∧ w.fs.find (tmp_path dir) ≠ some .directory) ∨
      (∀ store' reply, out ≠ .done (store', .ok reply)) ∧
        (faultless = true → store.leaves.length < MAX_LEAVES → w.fs.find (tmp_path dir) = some .directory))
      (store.append leaf) w := by
  obtain ⟨json, hjson, _⟩ := exists_state_json_bytes (pinned_state (store.push leaf).tree.root) "log state"
  refine append_anywhere h.dir_eq rfl hjson ?_ ?_ ?_ ?_ ?_
  · intro hroom inode w₁ w₂ hcreated hrestated
    refine .inl ⟨rfl, h.push hroom hjson hcreated hrestated, hroom, ?_⟩
    rw [← hcreated.find_eq _ tmp_path_ne_leaf_path]
    exact hrestated.clear
  · refine fun e hobstacle => .inr ⟨nofun, fun hfaultless _ => ?_⟩
    rw [store.tree_len] at hobstacle
    obtain hsome | hparent := hobstacle hfaultless
    · exact absurd ((h.settled.listed.isSome_iff h.settled.listed.lt).mp hsome) (lt_irrefl _)
    · rw [leaf_path_eq, List.dropLast_concat] at hparent
      exact absurd h.settled.listed.directory hparent
  · rintro rfl inode k w₁ e _
    exact .inr ⟨by rintro _ _ ⟨⟩, nofun⟩
  · refine fun inode w₁ w₂ e hcreated hobstructed => .inr ⟨by rintro _ _ ⟨⟩, fun hfaultless _ => ?_⟩
    have hpins : StatePins w₁.fs.view dir (UInt64.ofNat store.leaves.length) (rfc6962.mth sha256_hasher store.leaves) :=
      h.settled.state.created hcreated
    obtain htmp | hstate := hobstructed hfaultless
    · rw [hpins.obstructed_iff, Fs.view_eq_directory_iff, hcreated.find_eq _ tmp_path_ne_leaf_path] at htmp
      exact htmp
    · exact absurd hstate hpins.not_obstructed
  · exact fun hlarge w₁ => .inr ⟨nofun, fun _ hroom => absurd hroom (by omega)⟩

end Attached

section Session

/-- A handle that is used alone: the directory is opened, and appends succeed or fail to create
their leaf file. -/
inductive Session (who : Who) (dir : Path) : LogStore → World Who Event → Prop where
  | opened {w : World Who Event} {choices : List Choice} {store : LogStore} (hapart : Apart w.fs dir)
    (hopen : (run who (LogStore.openLog dir) choices w).outcome = some (.done store)) :
    Session who dir store (run who (LogStore.openLog dir) choices w).state
  | appended {w : World Who Event} {choices : List Choice} {leaf : Bytes} {store store' : LogStore}
    {reply : UInt64 × U8Array 32} (h : Session who dir store w)
    (happend : (run who (store.append leaf) choices w).outcome = some (.done (store', .ok reply))) :
    Session who dir store' (run who (store.append leaf) choices w).state
  | refused {w : World Who Event} {choices : List Choice} {leaf : Bytes} {store store' : LogStore} {e : CliError}
    (h : Session who dir store w)
    (happend : (run who (store.append leaf) choices w).outcome = some (.done (store', .error e)))
    (hcreate : choices.head? = some .fault) : Session who dir store' (run who (store.append leaf) choices w).state

omit [StandardBase64] [LawfulSerdeJson LogState] [Rfc6962CtMerkle] [BuildProfile] [SerdeJson LogConfig] in
/-- An append whose leaf file is not created leaves everything as it is. -/
theorem run_append_of_fault (who : Who) (store : LogStore) (leaf : Bytes) (w : World Who Event)
    (hcreate : choices.head? = some .fault) :
    (run who (store.append leaf) choices w).state = w ∧
      ∃ e, (run who (store.append leaf) choices w).outcome = some (.done (store, .error e)) := by
  cases choices with
  | nil => cases hcreate
  | cons choice choices =>
    obtain rfl := Option.some.inj hcreate
    exact ⟨rfl, _, rfl⟩

theorem Session.attached (h : Session who dir store w) : Attached dir store w := by
  induction h with
  | opened hapart hopen => exact attached_of_open hapart hopen
  | appended h happend ih =>
    obtain ⟨hdone, hattached, _⟩ | ⟨hnot, _⟩ := (run_solo ih.append trivial).2 _ happend
    · obtain ⟨rfl, _⟩ := Prod.mk.inj (Outcome.done.inj hdone)
      exact hattached
    · exact absurd rfl (hnot _ _)
  | refused h happend hcreate ih =>
    obtain ⟨hsame, e, hfailed⟩ := run_append_of_fault _ _ _ _ hcreate
    rw [hfailed] at happend
    cases happend
    rw [hsame]
    exact ih

end Session

section NothingChanged

/-- Whoever opens the directory next gets these leaves. -/
def OpensTo (who : Who) (dir : Path) (leaves : List Bytes) (w : World Who Event) : Prop :=
  ∀ choices store, (run who (LogStore.openLog dir) choices w).outcome = some (.done store) → store.leaves = leaves

omit [Sha2] [StandardBase64] [LawfulSerdeJson LogState] [Rfc6962CtMerkle] in
theorem opensTo_of_listed (h : Listed w.fs.view dir leaves) : OpensTo who dir leaves w := by
  intro choices store hopen
  obtain ⟨_, _, hfound, _⟩ := found_of_open hopen
  exact hfound.leaves.unique h

/-- A failed append changed nothing: the handle is as it was, the directory opens without the
leaf, and the same append gives the same index without faults and adds the leaf once. -/
structure ChangesNothing (who : Who) (dir : Path) (leaf : Bytes) (store store' : LogStore) (w' : World Who Event) : Prop where
  leaves : store'.leaves = store.leaves
  tree : store'.tree = store.tree
  reopened : OpensTo who dir store.leaves w'
  retried : Completes who (fun out w'' => ∃ again, out = .done (again, .ok (store.tree.len, raw_leaf_hash leaf)) ∧
    again.leaves = store.leaves ++ [leaf] ∧ OpensTo who dir (store.leaves ++ [leaf]) w'') (store'.append leaf) w'

omit [StandardBase64] [LawfulSerdeJson LogState] [Rfc6962CtMerkle] in
/-- No leaf file was left behind. -/
theorem ChangesNothing.find_eq_none (h : ChangesNothing who dir leaf store store' w') :
    w'.fs.find (leaf_path store'.dir store'.tree.len) = none := by
  obtain ⟨_, _, hstep⟩ := h.retried w' rfl trivial
  cases hcreate : w'.fs.create_new (leaf_path store'.dir store'.tree.len) with
  | ok made =>
    obtain ⟨_, hnone, _⟩ := Fs.create_new_eq_ok hcreate
    exact hnone
  | error e =>
    have happly : apply who (.create_new (leaf_path store'.dir store'.tree.len)) .proceed w' = some (.error e, w') := by
      rw [apply, World.attempt, hcreate]
      rfl
    obtain ⟨_, _, again, hagain, _⟩ := hstep .proceed (.error e) w' (fun _ => rfl) happly
    cases hagain

omit [StandardBase64] [Rfc6962CtMerkle] [BuildProfile] in
/-- A failed append whose leaf file was created leaves that file or the leaf in the handle behind. -/
theorem Attached.left_behind {e : CliError} (h : Attached dir store w) (hcreate : choices.head? ≠ some .fault)
    (hfailed : (run who (store.append leaf) choices w).outcome = some (.done (store', .error e))) :
    store' = store ∧ (run who (store.append leaf) choices w).state.fs.find (leaf_path dir store.tree.len) ≠ none ∨
      store' = store.push leaf := by
  obtain rfl := h.dir_eq
  obtain ⟨json, hjson, _⟩ := exists_state_json_bytes (pinned_state (store.push leaf).tree.root) "log state"
  obtain ⟨next, hnext⟩ : ∃ next, store.append leaf = .op (.create_new (leaf_path store.dir store.tree.len)) next :=
    ⟨_, rfl⟩
  cases choices with
  | nil => cases hfailed
  | cons choice choices =>
    rw [hnext, run] at hfailed ⊢
    cases happly : apply who (.create_new (leaf_path store.dir store.tree.len)) choice w with
    | none =>
      simp only [happly] at hfailed
      cases hfailed
    | some made =>
      simp only [happly] at hfailed ⊢
      obtain ⟨e', _, _, herror⟩ | ⟨inode, fs, hok, hreply, hw'⟩ := World.attempt_eq_some happly
      · have hlisted := h.settled.listed
        have hnone : w.fs.view (leaf_path store.dir store.tree.len) = none := by
          rw [store.tree_len]
          by_contra hsome
          exact absurd ((hlisted.isSome_iff hlisted.lt).mp hsome) (lt_irrefl _)
        have hparent : w.fs.find (leaf_path store.dir store.tree.len).dropLast = some .directory := by
          rw [leaf_path_eq, List.dropLast_concat, ← Fs.view_eq_directory_iff]
          exact hlisted.directory
        obtain ⟨made, hmade⟩ := Fs.exists_create_new_eq_ok hparent (Fs.view_eq_none_iff.mp hnone)
        rw [hmade] at herror
        cases herror fun hfault => hcreate (congrArg some hfault)
      · rw [hreply] at hfailed ⊢
        have hcreated : Created (leaf_path store.dir store.tree.len) w inode [] made.2 :=
          Created.create_new hok (by rw [hw'])
        have hkeeps : Keeps who (solo (fun w' => (w'.fs.find (leaf_path store.dir store.tree.len)).isSome) false)
            (fun out w' => ∀ store' e, out = .done (store', .error e) →
              store' = store ∧ w'.fs.find (leaf_path store.dir store.tree.len) ≠ none ∨ store' = store.push leaf)
            (next (.ok inode)) made.2 := by
          refine append_created_anywhere rfl rfl hnext hjson (fun _ => id) ?_ ?_ ?_ ?_ hcreated
          · rintro _ w₁ w₂ _ _ _ _ ⟨⟩
          · rintro _ k w' e' hcreated _ _ ⟨⟩
            exact .inl ⟨rfl, by simp [hcreated.find]⟩
          · rintro w₁ w₂ e' _ _ _ _ ⟨⟩
            exact .inr rfl
          · rintro _ _ _ _ ⟨⟩
        exact (run_solo hkeeps (by simp [hcreated.find])).2 _ hfailed _ _ rfl

/-- An append through a handle that is used alone fails without changing anything exactly where
its leaf file was not created, and nothing else is in the way of a further leaf. -/
theorem failed_append_changes_nothing_iff {e : CliError} (h : Session who dir store w)
    (hfailed : (run who (store.append leaf) choices w).outcome = some (.done (store', .error e))) :
    ChangesNothing who dir leaf store store' (run who (store.append leaf) choices w).state ↔
      choices.head? = some .fault ∧ store.leaves.length < MAX_LEAVES ∧ w.fs.find (tmp_path dir) ≠ some .directory := by
  have hattached := h.attached
  constructor
  · intro hnothing
    have hfault : choices.head? = some .fault := by
      by_contra hcreate
      obtain ⟨rfl, hfile⟩ | rfl := hattached.left_behind hcreate hfailed
      · rw [← hattached.dir_eq] at hfile
        exact hfile hnothing.find_eq_none
      · have hleaves : store.leaves ++ [leaf] = store.leaves := hnothing.leaves
        simp at hleaves
    obtain ⟨hsame, e', hrefused⟩ := run_append_of_fault who store leaf w hfault
    rw [hrefused] at hfailed
    cases hfailed
    rw [hsame] at hnothing
    obtain ⟨choices', _, out, hout, again, rfl, _⟩ := hnothing.retried.exists_run
    obtain ⟨_, _, hroom, hclear⟩ | ⟨hnot, _⟩ := (run_solo hattached.append trivial).2 _ hout
    · exact ⟨hfault, hroom, hclear⟩
    · exact absurd rfl (hnot _ _)
  · rintro ⟨hfault, hroom, hclear⟩
    obtain ⟨hsame, e', hrefused⟩ := run_append_of_fault who store leaf w hfault
    rw [hrefused] at hfailed
    cases hfailed
    rw [hsame]
    refine ⟨rfl, rfl, opensTo_of_listed hattached.settled.listed, hattached.append.mono fun out w' hout => ?_⟩
    obtain ⟨rfl, hattached', _⟩ | ⟨_, hobstacle⟩ := hout
    · exact ⟨_, rfl, rfl, opensTo_of_listed hattached'.settled.listed⟩
    · exact absurd (hobstacle rfl hroom) hclear

end NothingChanged

end Failure

section

open reference

/-- The handle on the log of one leaf. -/
def one_leaf_store : LogStore := ⟨log_dir, "log".toList, [[0x78]], ⟨[[0x78]]⟩, rfl⟩

/-- Opening that log. -/
def reopening : List Choice := [.proceed, .proceed, .proceed, .lists [leaf_entry 0], .proceed, .proceed]

/-- The world once it was opened. -/
def reopened : World Unit Empty := (run () (LogStore.openLog log_dir) reopening one_leaf).state

theorem session_one_leaf : Session () log_dir one_leaf_store reopened := by
  have hopen : (run () (LogStore.openLog log_dir) reopening one_leaf).outcome = some (.done one_leaf_store) ∧
      one_leaf.fs.find (tmp_path log_dir) = none := by decide +kernel
  refine .opened ⟨?_, fun name => ?_⟩ hopen.1
  · rintro ⟨inode, _, htmp⟩
    rw [hopen.2] at htmp
    cases htmp
  · rintro ⟨inode, _, htmp⟩
    rw [hopen.2] at htmp
    cases htmp

/-- The write of the leaf "yz" fails after its first byte: the handle is as it was, but the next
open takes "y" for a second leaf. -/
theorem failed_append_leaves_first_byte :
    Session () log_dir one_leaf_store reopened ∧
    ∃ e, (run () (one_leaf_store.append [0x79, 0x7a]) [.proceed, .stores 1, .fault] reopened).outcome =
      some (.done (one_leaf_store, .error e)) ∧
    leaves_of (run () (LogStore.openLog log_dir) recovery
      (run () (one_leaf_store.append [0x79, 0x7a]) [.proceed, .stores 1, .fault] reopened).state).outcome =
      some [[0x78], [0x79]] ∧
    ¬ ChangesNothing () log_dir [0x79, 0x7a] one_leaf_store one_leaf_store
      (run () (one_leaf_store.append [0x79, 0x7a]) [.proceed, .stores 1, .fault] reopened).state := by
  have hrun : (run () (one_leaf_store.append [0x79, 0x7a]) [.proceed, .stores 1, .fault] reopened).outcome =
        some (.done (one_leaf_store, .error (.Io s!"failed to write leaf file {RustFmt.display (leaf_path log_dir 1)}" .Other))) ∧
      leaves_of (run () (LogStore.openLog log_dir) recovery
        (run () (one_leaf_store.append [0x79, 0x7a]) [.proceed, .stores 1, .fault] reopened).state).outcome =
        some [[0x78], [0x79]] := by decide +kernel
  refine ⟨session_one_leaf, _, hrun.1, hrun.2, fun hnothing => ?_⟩
  obtain ⟨store, hopen, hleaves⟩ := exists_of_leaves_of hrun.2
  rw [hnothing.reopened _ _ hopen] at hleaves
  cases hleaves

/-- The creation of the leaf file fails: nothing was changed. -/
theorem failed_append_changes_nothing_one_leaf :
    ChangesNothing () log_dir [0x79] one_leaf_store one_leaf_store
      (run () (one_leaf_store.append [0x79]) [.fault] reopened).state := by
  have hclear : reopened.fs.find (tmp_path log_dir) ≠ some .directory := by decide +kernel
  exact (failed_append_changes_nothing_iff session_one_leaf rfl).mpr ⟨rfl, by decide, hclear⟩

end

end lys
