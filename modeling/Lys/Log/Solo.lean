import Lys.Log.Layout

open rust effect posix

namespace lys

variable {Who Event : Type} {who : Who} {inv : World Who Event → Prop} {faultless : Bool} {dir : Path}
  {v v' : Path → Option Entry} {events : List (Who × Event)} {w : World Who Event} {json leaf : Bytes}

section WriteState

/-- What stands in a log directory once its state was rewritten. -/
def stated (v : Path → Option Entry) (dir : Path) (json : Bytes) : Path → Option Entry :=
  Function.update (Function.update v (state_path dir) (some (.file json))) (tmp_path dir) none

/-- What stands there while its state is being rewritten. -/
inductive Rewriting (v : Path → Option Entry) (dir : Path) (json : Bytes) : (Path → Option Entry) → Prop where
  | before : Rewriting v dir json v
  | temporary (k : Nat) : Rewriting v dir json (Function.update v (tmp_path dir) (some (.file (json.take k))))
  | after : Rewriting v dir json (stated v dir json)

theorem stated_eq_of_ne {q : Path} (hstate : q ≠ state_path dir) (htmp : q ≠ tmp_path dir) :
    stated v dir json q = v q := by
  rw [stated, Function.update_of_ne htmp, Function.update_of_ne hstate]

@[simp] theorem stated_state_path : stated v dir json (state_path dir) = some (.file json) := by
  rw [stated, Function.update_of_ne state_path_ne_tmp_path, Function.update_self]

@[simp] theorem stated_tmp_path : stated v dir json (tmp_path dir) = none := Function.update_self ..

variable [RustFmt] [Base64] [SerdeJson LogState] {root : RootHash} {post : Outcome CliError Unit → World Who Event → Prop}

/-- Rewriting the state alone. -/
theorem write_state_solo (hjson : StateBytes root json)
    (hinv : ∀ v' w, Rewriting v dir json v' → Seen dir v' events w → inv w)
    (hdone : ∀ w, Seen dir (stated v dir json) events w → post (.done ()) w)
    (hfail : ∀ v' w e, Rewriting v dir json v' → Seen dir v' events w →
      (faultless = true → Obstructed v (tmp_path dir) ∨ Obstructed v (state_path dir)) → post (.failed e) w)
    (hw : Seen dir v events w) : Keeps who (solo inv faultless) post (write_state dir root) w := by
  have htmp : dir <+: tmp_path dir := List.prefix_append ..
  have hafter : Function.update (Function.update (Function.update v (tmp_path dir) (some (.file json)))
      (state_path dir) (some (.file json))) (tmp_path dir) none = stated v dir json := by
    rw [Function.update_comm state_path_ne_tmp_path.symm, Function.update_idem, stated]
  refine write_state_keeps (A := Seen dir v events) (R := Seen dir (stated v dir json) events)
    (Q := fun w => ∃ v', Rewriting v dir json v' ∧ Seen dir v' events w ∧
      (faultless = true → Obstructed v (tmp_path dir) ∨ Obstructed v (state_path dir)))
    (T := fun inode k w => k ≤ json.length ∧ Filling dir v events (tmp_path dir) inode (json.take k) w)
    hjson ?_ ?_ ?_ ?_ ?_ hw
  · refine (Seen.create htmp fun inode w hw => ?_).imp fun r w hB => ?_
    · exact hinv _ w (.temporary 0) hw.seen
    · cases r with
      | ok inode => exact ⟨Nat.zero_le _, hB⟩
      | error e => exact ⟨v, .before, hB.1, fun hfaultless => .inl (hB.2 hfaultless)⟩
  · refine fun inode => Filling.writes htmp (fun k w _ hw => hinv _ w (.temporary k) hw.seen) ?_
    exact fun hfault k w _ hw => ⟨_, .temporary k, hw.seen, by simp [hfault]⟩
  · intro inode
    have hsource := Function.update_self (tmp_path dir) (some (Entry.file json)) v
    have hseen : ∀ w : World Who Event, json.length ≤ json.length ∧
        Filling dir v events (tmp_path dir) inode (json.take json.length) w →
        Seen dir (Function.update v (tmp_path dir) (some (.file json))) events w := by
      rintro w ⟨_, hw⟩
      rw [List.take_length] at hw
      exact hw.seen
    refine (Seen.rename hseen htmp state_path_ne_tmp_path.symm hsource fun w hw => ?_).imp fun r w hB => ?_
    · rw [hafter] at hw
      exact hinv _ w .after hw
    · cases r with
      | ok _ => exact hafter ▸ hB
      | error e =>
        refine ⟨_, .temporary json.length, by rw [List.take_length]; exact hB.1, fun hfaultless => .inr ?_⟩
        obtain hdirectory | hparent := hB.2 hfaultless
        · rw [Function.update_of_ne state_path_ne_tmp_path] at hdirectory
          exact .inl hdirectory
        · refine .inr ?_
          rw [Function.update_of_ne (by simp [state_path, tmp_path])] at hparent
          exact hparent
  · exact fun w hw _ => hdone w hw
  · rintro w e ⟨v', hrewriting, hw, hobstructed⟩ _
    exact hfail v' w e hrewriting hw hobstructed

end WriteState

section Append

/-- What stands in a log directory while a leaf is appended. -/
inductive Appending (v : Path → Option Entry) (dir path : Path) (leaf json : Bytes) : (Path → Option Entry) → Prop where
  | before : Appending v dir path leaf json v
  | leaf (k : Nat) (hnone : v path = none) :
    Appending v dir path leaf json (Function.update v path (some (.file (leaf.take k))))
  | state {v' : Path → Option Entry} (hnone : v path = none)
    (h : Rewriting (Function.update v path (some (.file leaf))) dir json v') : Appending v dir path leaf json v'

/-- A leaf file is in nobody's way. -/
theorem obstructed_update_leaf {index : UInt64} {entry : Option Entry} {name : Name}
    (h : Obstructed (Function.update v (leaf_path dir index) entry) (dir ++ [name])) : Obstructed v (dir ++ [name]) := by
  have hpath : dir ++ [name] ≠ leaf_path dir index := (leaves_entry_ne name (leaf_entry index)).symm
  have hparent : (dir ++ [name]).dropLast ≠ leaf_path dir index := by
    intro heq
    have hlength := congrArg List.length heq
    simp [leaf_path_eq, leaves_dir] at hlength
  rw [Obstructed, Function.update_of_ne hpath, Function.update_of_ne hparent] at h
  exact h

variable [RustFmt] [Base64] [SerdeJson LogState] [CtMerkle] [Sha2] {store : LogStore} {path : Path}
  {post : Outcome CliError (LogStore × CliResult (UInt64 × U8Array 32)) → World Who Event → Prop}

/-- Appending alone. -/
theorem append_solo (hdir : store.dir = dir) (hpath : path = leaf_path dir store.tree.len)
    (hjson : StateBytes (store.push leaf).tree.root json)
    (hinv : ∀ v' w, Appending v dir path leaf json v' → Seen dir v' events w → inv w)
    (hdone : ∀ w, v path = none → Seen dir (stated (Function.update v path (some (.file leaf))) dir json) events w →
      post (.done (store.push leaf, .ok (store.tree.len, raw_leaf_hash leaf))) w)
    (hunmade : ∀ v' w e, (v' = v ∨ v path = none ∧ ∃ k, v' = Function.update v path (some (.file (leaf.take k)))) →
      Seen dir v' events w → (faultless = true → v path ≠ none ∨ v path.dropLast ≠ some .directory) →
      post (.done (store, .error e)) w)
    (hunstated : ∀ v' w e, v path = none → Rewriting (Function.update v path (some (.file leaf))) dir json v' →
      Seen dir v' events w → (faultless = true → Obstructed v (tmp_path dir) ∨ Obstructed v (state_path dir)) →
      post (.done (store.push leaf, .error e)) w)
    (hpanic : MAX_LEAVES < store.leaves.length + 1 → ∀ w, v path = none →
      Seen dir (Function.update v path (some (.file leaf))) events w → post .panicked w)
    (hw : Seen dir v events w) : Keeps who (solo inv faultless) post (store.append leaf) w := by
  subst hdir hpath
  have hprefix : store.dir <+: leaf_path store.dir store.tree.len := by
    rw [leaf_path_eq, leaves_dir, List.append_assoc]
    exact List.prefix_append ..
  refine append_keeps (A := Seen store.dir v events)
    (L := fun inode k w => k ≤ leaf.length ∧ v (leaf_path store.dir store.tree.len) = none ∧
      Filling store.dir v events (leaf_path store.dir store.tree.len) inode (leaf.take k) w)
    (Q := fun w => ∃ v', (v' = v ∨ v (leaf_path store.dir store.tree.len) = none ∧
        ∃ k, v' = Function.update v (leaf_path store.dir store.tree.len) (some (.file (leaf.take k)))) ∧
      Seen store.dir v' events w ∧ (faultless = true → v (leaf_path store.dir store.tree.len) ≠ none ∨
        v (leaf_path store.dir store.tree.len).dropLast ≠ some .directory)) ?_ ?_ ?_ ?_ ?_ hw
  · refine (Seen.create_new fun inode w hnone hw => ?_).imp fun r w hB => ?_
    · exact hinv _ w (.leaf 0 hnone) hw.seen
    · cases r with
      | ok inode => exact ⟨Nat.zero_le _, hB⟩
      | error e => exact ⟨v, .inl rfl, hB.1, hB.2⟩
  · refine fun inode => Writes.solo (fun k count w hw _ _ hle => ?_) fun hfault k _ w hw _ => ?_
    · have hstored := hw.2.2.stored who hprefix hle
      exact ⟨hinv _ _ (.leaf _ hw.2.1) hstored.seen, hle, hw.2.1, hstored⟩
    · exact ⟨_, .inr ⟨hw.2.1, k, rfl⟩, hw.2.2.seen, by simp [hfault]⟩
  · rintro w e ⟨v', hv', hw, hclear⟩ _
    exact hunmade v' w e hv' hw hclear
  · rintro hlarge inode w ⟨_, hnone, hw⟩ _
    rw [List.take_length] at hw
    exact hpanic hlarge w hnone hw.seen
  · rintro hroom inode w ⟨_, hnone, hw⟩ _
    rw [List.take_length] at hw
    refine write_state_solo hjson (fun v' w h hw => hinv v' w (.state hnone h) hw) (fun w hw => hdone w hnone hw)
      (fun v' w e h hw hobstructed => hunstated v' w e hnone h hw fun hfaultless => ?_) hw.seen
    exact (hobstructed hfaultless).imp obstructed_update_leaf obstructed_update_leaf

end Append

section Init

/-- What stands in a directory while it is made a log directory. -/
inductive Initializing (v : Path → Option Entry) (dir : Path) (config json : Bytes) : (Path → Option Entry) → Prop where
  | directories {v' : Path → Option Entry} (hgrown : Grown (leaves_dir dir) v v') : Initializing v dir config json v'
  | config {v' : Path → Option Entry} (hgrown : Grown (leaves_dir dir) v v')
    (hleaves : v' (leaves_dir dir) = some .directory) (k : Nat) :
    Initializing v dir config json (Function.update v' (config_path dir) (some (.file (config.take k))))
  | state {v' v'' : Path → Option Entry} (hgrown : Grown (leaves_dir dir) v v')
    (hleaves : v' (leaves_dir dir) = some .directory)
    (h : Rewriting (Function.update v' (config_path dir) (some (.file config))) dir json v'') :
    Initializing v dir config json v''

theorem not_prefix_leaves_dir {name : Name} (h : name ≠ component "leaves") : ¬ dir ++ [name] <+: leaves_dir dir := by
  rw [leaves_dir, List.prefix_append_right_inj]
  simpa using h

/-- Making the directories changes no file beside `leaves/`. -/
theorem eq_beside_of_grown (h : Grown (leaves_dir dir) v v') {name : Name} (hname : name ≠ component "leaves") :
    v' (dir ++ [name]) = v (dir ++ [name]) := h.eq_of_not_prefix (not_prefix_leaves_dir hname)

/-- In a directory only a directory is in a file's way. -/
theorem eq_directory_of_obstructed (hw : Seen dir v events w) (hleaves : v (leaves_dir dir) = some .directory)
    {name : Name} (h : Obstructed v (dir ++ [name])) : v (dir ++ [name]) = some .directory := by
  refine h.resolve_right fun hparent => hparent ?_
  have hdir := hw.parent (q := leaves_dir dir) (by simp [leaves_dir]) (by simp [hleaves])
  rwa [leaves_dir, List.dropLast_concat, ← @List.dropLast_concat _ dir name] at hdir

variable [RustFmt] [Base64] [SerdeJson LogState] [SerdeJson LogConfig] [CtMerkle] {origin : Str} {config : Bytes}
  {post : Outcome CliError Unit → World Who Event → Prop}

/-- The configuration that `init` writes. -/
def ConfigBytes (origin : Str) (config : Bytes) : Prop :=
  state_json_bytes ({ format := LOG_DIR_FORMAT, origin } : LogConfig) "log config" = .ok config

/-- What stands in the way of `init`. -/
def InTheWay (v : Path → Option Entry) (dir : Path) : Prop :=
  v (config_path dir) ≠ none ∨ Blocked v (leaves_dir dir) ∨ v (tmp_path dir) = some .directory ∨
    v (state_path dir) = some .directory

/-- Initializing alone. -/
theorem init_solo (hname : validate_note_name origin = .ok ()) (hconfig : ConfigBytes origin config)
    (hjson : StateBytes AppendOnlyTree.new.root json)
    (hinv : ∀ v' w, Initializing v dir config json v' → Seen dir v' events w → inv w)
    (hdone : ∀ v' w, Grown (leaves_dir dir) v v' → v' (leaves_dir dir) = some .directory →
      Seen dir (stated (Function.update v' (config_path dir) (some (.file config))) dir json) events w → post (.done ()) w)
    (hfail : ∀ v' w e, Initializing v dir config json v' → Seen dir v' events w → (faultless = true → InTheWay v dir) →
      post (.failed e) w)
    (hw : Seen dir v events w) : Keeps who (solo inv faultless) post (LogStore.init dir origin) w := by
  have hbefore : Initializing v dir config json v := .directories (.refl _ _)
  rw [LogStore.init, CheckpointBody.from_root_eq_ok hname]
  refine (Looks.solo rfl (Seen dir v events)).call rfl hw fun w choice r hw _ hallowed happly => ?_
  obtain ⟨_, htrue, _⟩ := World.ask_eq_some happly
  cases r with
  | true =>
    refine hfail v w _ hbefore hw fun _ => .inl ?_
    have hsome := htrue rfl
    rwa [Option.isSome_iff_ne_none, ne_eq, hw.find_eq_none_iff] at hsome
  | false =>
    change Keeps who (solo inv faultless) post ((fs.create_dir_all (leaves_dir dir)).map_error _ >>= _) w
    refine Keeps.bind (Keeps.map_error (create_dir_all_solo (fun v' w h => hinv v' w (.directories h))
      (fun v' w hgrown hleaves hw => ?_)
      (fun v' w e hgrown hw hblocked => hfail v' w _ (.directories hgrown) hw fun h => .inr (.inl (hblocked h))) hw))
    have hprefix : dir <+: config_path dir := List.prefix_append ..
    have hconfigPath : v' (config_path dir) = v (config_path dir) := eq_beside_of_grown hgrown (by decide)
    have hprogram : (Prog.of_except (state_json_bytes ({ format := LOG_DIR_FORMAT, origin } : LogConfig) "log config") :
        Process Who Event Bytes) = .ret config := by
      rw [hconfig]
      rfl
    change Keeps who (solo inv faultless) post (Prog.of_except (state_json_bytes ({ format := LOG_DIR_FORMAT, origin } : LogConfig)
      "log config") >>= _) w
    rw [hprogram, Prog.ret_bind]
    refine Keeps.bind (Keeps.map_error (write_solo hprefix (fun k inode w hw => hinv _ w (.config hgrown hleaves k) hw.seen)
      (fun inode w hwritten => ?_) (fun w e hobstructed hcase => ?_) hw))
    · refine write_state_solo hjson (fun v'' w h hw => hinv v'' w (.state hgrown hleaves h) hw)
        (fun w hw => hdone v' w hgrown hleaves hw) (fun v'' w e h hw' hobstructed => ?_) hwritten.seen
      refine hfail v'' w e (.state hgrown hleaves h) hw' fun hfaultless => ?_
      have hclear : ∀ name, component "log.json" ≠ name → name ≠ component "leaves" →
          Obstructed (Function.update v' (config_path dir) (some (.file config))) (dir ++ [name]) →
          v (dir ++ [name]) = some .directory := by
        intro name hname hnotLeaves hobstructed
        have hne : dir ++ [name] ≠ config_path dir := by simpa [config_path] using hname.symm
        have hdirectory := eq_directory_of_obstructed hwritten.seen
          (by rw [Function.update_of_ne config_path_ne_leaves_dir.symm, hleaves]) hobstructed
        rwa [Function.update_of_ne hne, eq_beside_of_grown hgrown hnotLeaves] at hdirectory
      exact .inr (.inr ((hobstructed hfaultless).imp (hclear _ (by decide) (by decide)) (hclear _ (by decide) (by decide))))
    · have hinTheWay : faultless = true → InTheWay v dir := fun hfaultless => by
        have hdirectory : v' (config_path dir) = some .directory :=
          eq_directory_of_obstructed hw hleaves (hobstructed hfaultless)
        rw [hconfigPath] at hdirectory
        exact .inl (by simp [hdirectory])
      obtain hw' | ⟨k, inode, hw'⟩ := hcase
      · exact hfail v' w _ (.directories hgrown) hw' hinTheWay
      · exact hfail _ w _ (.config hgrown hleaves k) hw'.seen hinTheWay

end Init

end lys
