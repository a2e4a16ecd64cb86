import Lys.Log.Solo
import Lys.Posix.Fresh

open rust effect posix

namespace lys

variable {Who Event : Type} {who : Who} {inv : World Who Event → Prop} {faultless : Bool} {dir : Path}
  {w w' : World Who Event} {json : Bytes}

/-- A path is another name of the temporary state file. -/
def NamesTemporary (fs : Fs) (dir q : Path) : Prop :=
  ∃ inode, fs.find q = some (.file inode) ∧ fs.find (tmp_path dir) = some (.file inode)

/-- Beside the state and the temporary file everything stands where it stood, and what is not
another name of the temporary file holds what it held, and becomes none. -/
structure Beside (dir : Path) (w w' : World Who Event) : Prop where
  find_eq : ∀ q, q ≠ tmp_path dir → q ≠ state_path dir → w'.fs.find q = w.fs.find q
  view_eq : ∀ q, q ≠ tmp_path dir → q ≠ state_path dir → ¬ NamesTemporary w.fs dir q → w'.fs.view q = w.fs.view q
  names : ∀ q, q ≠ tmp_path dir → q ≠ state_path dir → NamesTemporary w'.fs dir q → NamesTemporary w.fs dir q

theorem Beside.refl (dir : Path) (w : World Who Event) : Beside dir w w :=
  ⟨fun _ _ _ => rfl, fun _ _ _ _ => rfl, fun _ _ _ => id⟩

/-- The temporary state file holds `bytes`. Everything else stands where it stood, and what is
not another name of that file holds what it held. -/
structure Staged (dir : Path) (w : World Who Event) (inode : Nat) (bytes : Bytes) (w' : World Who Event) : Prop where
  find_eq : ∀ q, q ≠ tmp_path dir → w'.fs.find q = w.fs.find q
  view_eq : ∀ q, q ≠ tmp_path dir → ¬ NamesTemporary w.fs dir q → w'.fs.view q = w.fs.view q
  names : ∀ q, q ≠ tmp_path dir → w'.fs.find q = some (.file inode) → NamesTemporary w.fs dir q
  clear : w.fs.find (tmp_path dir) ≠ some .directory
  find : w'.fs.find (tmp_path dir) = some (.file inode)
  content : w'.fs.content inode = bytes

theorem Staged.beside {inode : Nat} {bytes : Bytes} (h : Staged dir w inode bytes w') : Beside dir w w' := by
  refine ⟨fun q htmp _ => h.find_eq q htmp, fun q htmp _ => h.view_eq q htmp, fun q htmp _ hnames => ?_⟩
  obtain ⟨i, hq, hfile⟩ := hnames
  obtain rfl := Node.file.inj (Option.some.inj (hfile.symm.trans h.find))
  exact h.names q htmp hq

theorem Staged.create {inode : Nat} {fs : Fs} (h : w.fs.create (tmp_path dir) = .ok (inode, fs)) (hw' : w'.fs = fs) :
    Staged dir w inode [] w' := by
  subst hw'
  obtain ⟨_, hcase, hfind, hempty, hcontent⟩ := Fs.create_eq_ok h
  have helsewhere : ∀ q, q ≠ tmp_path dir → w'.fs.find q = w.fs.find q := fun q hq => by rw [hfind, if_neg hq]
  have hnames : ∀ q, w.fs.find q = some (.file inode) → NamesTemporary w.fs dir q := by
    intro q hq
    obtain ⟨htmp, _⟩ | ⟨_, rfl, _⟩ := hcase
    · exact ⟨inode, hq, htmp⟩
    · exact absurd (Fs.lt_of_find_eq_file hq) (lt_irrefl _)
  refine ⟨helsewhere, fun q hq hother => ?_, fun q hq hfile => ?_, ?_, by rw [hfind, if_pos rfl], hempty⟩
  · refine Fs.view_congr (helsewhere q hq) fun i hi => hcontent i ?_
    rintro rfl
    exact hother (hnames q hi)
  · rw [helsewhere q hq] at hfile
    exact hnames q hfile
  · obtain ⟨htmp, _⟩ | ⟨hnone, _⟩ := hcase
    · simp [htmp]
    · simp [hnone]

theorem Staged.stored (who : Who) {inode k count : Nat} (h : Staged dir w inode (json.take k) w')
    (hle : k + count ≤ json.length) :
    Staged dir w inode (json.take (k + count)) (w'.stored who inode k json count) where
  find_eq := h.find_eq
  view_eq q hq hother := by
    rw [← h.view_eq q hq hother]
    refine Fs.view_congr rfl fun i hi => Fs.content_write_of_ne ?_
    rintro rfl
    exact hother (h.names q hq hi)
  names := h.names
  clear := h.clear
  find := h.find
  content := content_stored h.find h.content hle

/-- The state was rewritten: what is not another name of the temporary file is as it was. -/
structure Restated (dir : Path) (json : Bytes) (w w' : World Who Event) : Prop where
  state : w'.fs.view (state_path dir) = some (.file json)
  find_eq : ∀ q, q ≠ tmp_path dir → q ≠ state_path dir → w'.fs.find q = w.fs.find q
  view_eq : ∀ q, q ≠ tmp_path dir → q ≠ state_path dir → ¬ NamesTemporary w.fs dir q → w'.fs.view q = w.fs.view q
  clear : w.fs.find (tmp_path dir) ≠ some .directory
  temporary : ∀ node, w'.fs.find (tmp_path dir) = some node → w.fs.find (tmp_path dir) = some node

theorem Restated.beside (h : Restated dir json w w') : Beside dir w w' := by
  refine ⟨h.find_eq, h.view_eq, fun q htmp hstate hnames => ?_⟩
  obtain ⟨i, hq, hfile⟩ := hnames
  exact ⟨i, by rw [← h.find_eq q htmp hstate, hq], h.temporary _ hfile⟩

theorem Staged.rename {inode : Nat} {fs : Fs} {w'' : World Who Event} (h : Staged dir w inode json w')
    (hrename : w'.fs.rename (tmp_path dir) (state_path dir) = .ok fs) (hw'' : w''.fs = fs) :
    Restated dir json w w'' := by
  subst hw''
  obtain ⟨i, hsource, _, hcontents, hcase⟩ := Fs.rename_eq_ok hrename
  obtain rfl := Node.file.inj (Option.some.inj (hsource.symm.trans h.find))
  have hcontent : ∀ i, w''.fs.content i = w'.fs.content i := fun i => Fs.content_of_contents_eq hcontents
  have helsewhere : ∀ q, q ≠ tmp_path dir → q ≠ state_path dir → w''.fs.find q = w'.fs.find q := by
    intro q htmp hstate
    obtain ⟨_, hsame⟩ | ⟨_, hfind⟩ := hcase
    · rw [hsame]
    · rw [hfind, if_neg htmp, if_neg hstate]
  -- a state file that is another name of the temporary file stays as it is
  have hstate : w''.fs.find (state_path dir) = some (.file i) := by
    obtain ⟨hfile, hsame⟩ | ⟨_, hfind⟩ := hcase
    · rw [hsame, hfile]
    · rw [hfind, if_neg state_path_ne_tmp_path, if_pos rfl]
  refine ⟨?_, fun q htmp hq => ?_, fun q htmp hq hother => ?_, h.clear, fun node hnode => ?_⟩
  · rw [Fs.view_of_find_file hstate, hcontent, h.content]
  · rw [helsewhere q htmp hq, h.find_eq q htmp]
  · rw [← h.view_eq q htmp hother]
    exact Fs.view_congr (helsewhere q htmp hq) fun i _ => hcontent i
  · obtain ⟨hfile, hsame⟩ | ⟨_, hfind⟩ := hcase
    · obtain ⟨j, hj, htmp⟩ := h.names _ state_path_ne_tmp_path hfile
      rw [← h.find_eq _ state_path_ne_tmp_path, hfile] at hj
      rw [hsame, h.find] at hnode
      rw [htmp, ← hj, hnode]
    · rw [hfind, if_pos rfl] at hnode
      cases hnode

variable [RustFmt] [Base64] [SerdeJson LogState] {root : RootHash} {post : Outcome CliError Unit → World Who Event → Prop}

/-- Rewriting the state alone, whatever the temporary file is another name of. Without faults
only a directory is in its way, and is found before anything is changed. -/
theorem write_state_anywhere (hjson : StateBytes root json)
    (hinv : ∀ w', (∃ inode k, Staged dir w inode (json.take k) w') ∨ Restated dir json w w' → inv w')
    (hdone : ∀ w', Restated dir json w w' → post (.done ()) w')
    (hfail : ∀ w' e, (faultless = true →
      w' = w ∧ Obstructed w.fs.view (tmp_path dir) ∨ Obstructed w.fs.view (state_path dir)) → post (.failed e) w') :
    Keeps who (solo inv faultless) post (write_state dir root) w := by
  refine write_state_keeps (A := (· = w)) (R := Restated dir json w)
    (Q := fun w' => faultless = true →
      w' = w ∧ Obstructed w.fs.view (tmp_path dir) ∨ Obstructed w.fs.view (state_path dir))
    (T := fun inode k w' => k ≤ json.length ∧ Staged dir w inode (json.take k) w') hjson ?_ ?_ ?_
    (fun w' hw' _ => hdone w' hw') (fun w' e hQ _ => hfail w' e hQ) rfl
  · refine Step.solo (by simp) fun w' choice r w'' hw' hinvw hallowed happly => ?_
    subst hw'
    obtain ⟨e, rfl, rfl, herror⟩ | ⟨inode, fs, hcreate, rfl, rfl⟩ := World.attempt_eq_some happly
    · refine ⟨hinvw, fun hfaultless => .inl ⟨rfl, ?_⟩⟩
      have hfailed := herror (by rintro rfl; cases hallowed hfaultless)
      by_contra hclear
      rw [Obstructed, not_or, not_not, Fs.view_eq_directory_iff, Fs.view_eq_directory_iff] at hclear
      obtain ⟨made, hmade⟩ := Fs.exists_create_eq_ok hclear.2 hclear.1
      rw [hmade] at hfailed
      cases hfailed
    · have hstaged := @Staged.create _ _ _ _ ⟨fs, (who, .create (tmp_path dir)) :: w'.trace⟩ _ _ hcreate rfl
      exact ⟨hinv _ (.inl ⟨inode, 0, hstaged⟩), Nat.zero_le _, hstaged⟩
  · refine fun inode => Writes.solo (fun k count w' hw' _ _ hle => ?_) fun hfault k _ w' _ _ => by simp [hfault]
    have hstored := hw'.2.stored who hle
    exact ⟨hinv _ (.inl ⟨inode, _, hstored⟩), hle, hstored⟩
  · intro inode
    refine Step.solo (by simp) fun w' choice r w'' hw' hinvw hallowed happly => ?_
    obtain ⟨_, hw'⟩ := hw'
    rw [List.take_length] at hw'
    obtain ⟨e, rfl, rfl, herror⟩ | ⟨_, fs, hrename, rfl, rfl⟩ := World.attempt_eq_some happly
    · refine ⟨hinvw, fun hfaultless => .inr ?_⟩
      have hfailed := herror (by rintro rfl; cases hallowed hfaultless)
      by_contra hclear
      have hparent : (state_path dir).dropLast ≠ tmp_path dir := by simp [state_path, tmp_path]
      rw [Obstructed, not_or, not_not, Fs.view_eq_directory_iff, Fs.view_eq_directory_iff, ← hw'.find_eq _ hparent,
        ← hw'.find_eq _ state_path_ne_tmp_path] at hclear
      obtain ⟨fs', hfs'⟩ := Fs.exists_rename_eq_ok hw'.find hclear.2 hclear.1
      rw [hfs'] at hfailed
      cases hfailed
    · obtain ⟨fs', hok, hpair⟩ := map_eq_ok_iff.mp hrename
      obtain ⟨rfl, rfl⟩ := Prod.mk.inj hpair
      have hrestated := @Staged.rename _ _ _ _ _ _ _ _ ⟨fs', (who, .rename (tmp_path dir) (state_path dir)) :: w'.trace⟩ hw' hok rfl
      exact ⟨hinv _ (.inr hrestated), hrestated⟩

/-- Wherever rewriting the state stops, nothing beside it changed. -/
theorem beside_run_write_state [LawfulSerdeJson LogState] {choices : List Choice} :
    Beside dir w (run who (write_state dir root) choices w).state := by
  obtain ⟨json, hjson, _⟩ := exists_state_json_bytes (pinned_state root) "log state"
  have hkeeps : Keeps who (solo (Beside dir w) false) (fun _ _ => True) (write_state dir root) w := by
    refine write_state_anywhere hjson (fun w' hw' => ?_) (fun _ _ => trivial) fun _ _ _ => trivial
    obtain ⟨_, _, hstaged⟩ | hrestated := hw'
    · exact hstaged.beside
    · exact hrestated.beside
  exact (run_solo hkeeps (.refl dir w)).1

section Append

variable [CtMerkle] [Sha2] {store : LogStore} {leaf : Bytes}
  {post : Outcome CliError (LogStore × CliResult (UInt64 × U8Array 32)) → World Who Event → Prop}

/-- An append alone whose leaf file was created, whatever the temporary file is another name of. -/
theorem append_created_anywhere {next : Except IoError Nat → Process Who Event (LogStore × CliResult (UInt64 × U8Array 32))}
    {path : Path} {inode : Nat} (hdir : store.dir = dir) (hpath : path = leaf_path dir store.tree.len)
    (happend : store.append leaf = .op (.create_new path) next) (hjson : StateBytes (store.push leaf).tree.root json)
    (hinv : ∀ w', (w'.fs.find path).isSome → inv w')
    (hdone : store.leaves.length < MAX_LEAVES → ∀ w₁ w₂, Created path w inode leaf w₁ → Restated dir json w₁ w₂ →
      post (.done (store.push leaf, .ok (store.tree.len, raw_leaf_hash leaf))) w₂)
    (hunwritten : faultless = false → ∀ k w₁ e, Created path w inode (leaf.take k) w₁ → post (.done (store, .error e)) w₁)
    (hunstated : ∀ w₁ w₂ e, Created path w inode leaf w₁ → (faultless = true →
      Obstructed w₁.fs.view (tmp_path dir) ∨ Obstructed w₁.fs.view (state_path dir)) →
      post (.done (store.push leaf, .error e)) w₂)
    (hpanic : MAX_LEAVES < store.leaves.length + 1 → ∀ w₁, post .panicked w₁) (hw : Created path w inode [] w') :
    Keeps who (solo inv faultless) post (next (.ok inode)) w' := by
  subst hdir hpath
  have hcreated : ∀ {bytes w₁}, Created (leaf_path store.dir store.tree.len) w inode bytes w₁ → inv w₁ := fun h =>
    hinv _ (by simp [h.find])
  refine append_keeps_of_created (Q := fun w₁ => faultless = false ∧ ∃ k, Created _ w inode (leaf.take k) w₁) happend
    (Created.writes (fun k w₁ h => hcreated h) fun hfault k w₁ _ h => ⟨hfault, k, h⟩) ?_ ?_ ?_ ⟨Nat.zero_le _, hw⟩
    (hcreated hw)
  · rintro w₁ e ⟨hfault, k, h⟩ _
    exact hunwritten hfault k w₁ e h
  · exact fun hlarge w₁ _ _ => hpanic hlarge w₁
  · rintro hroom w₁ ⟨_, h⟩ _
    rw [List.take_length] at h
    have hleaf : (w₁.fs.find (leaf_path store.dir store.tree.len)).isSome := by simp [h.find]
    refine write_state_anywhere hjson (fun w₂ h₂ => hinv w₂ ?_) (fun w₂ h₂ => hdone hroom w₁ w₂ h h₂) fun w₂ e hobstructed => ?_
    · obtain ⟨_, _, hstaged⟩ | hrestated := h₂
      · rw [hstaged.find_eq _ tmp_path_ne_leaf_path.symm]
        exact hleaf
      · rw [hrestated.find_eq _ tmp_path_ne_leaf_path.symm state_path_ne_leaf_path.symm]
        exact hleaf
    · exact hunstated w₁ w₂ e h fun hfaultless => (hobstructed hfaultless).imp_left And.right

/-- Appending alone, whatever the temporary file is another name of. -/
theorem append_anywhere {path : Path} (hdir : store.dir = dir) (hpath : path = leaf_path dir store.tree.len)
    (hjson : StateBytes (store.push leaf).tree.root json)
    (hdone : store.leaves.length < MAX_LEAVES → ∀ inode w₁ w₂, Created path w inode leaf w₁ → Restated dir json w₁ w₂ →
      post (.done (store.push leaf, .ok (store.tree.len, raw_leaf_hash leaf))) w₂)
    (hunmade : ∀ e, (faultless = true → w.fs.view path ≠ none ∨ w.fs.view path.dropLast ≠ some .directory) →
      post (.done (store, .error e)) w)
    (hunwritten : faultless = false → ∀ inode k w₁ e, Created path w inode (leaf.take k) w₁ →
      post (.done (store, .error e)) w₁)
    (hunstated : ∀ inode w₁ w₂ e, Created path w inode leaf w₁ → (faultless = true →
      Obstructed w₁.fs.view (tmp_path dir) ∨ Obstructed w₁.fs.view (state_path dir)) →
      post (.done (store.push leaf, .error e)) w₂)
    (hpanic : MAX_LEAVES < store.leaves.length + 1 → ∀ w₁, post .panicked w₁) :
    Keeps who (solo (fun _ => True) faultless) post (store.append leaf) w := by
  subst hdir hpath
  have hcreate : Step who (solo (fun _ => True) faultless) (· = w) (.create_new (leaf_path store.dir store.tree.len))
      (Replied (fun inode w' => Created (leaf_path store.dir store.tree.len) w inode [] w') fun _ w' => w' = w ∧
        (faultless = true → w.fs.view (leaf_path store.dir store.tree.len) ≠ none ∨
          w.fs.view (leaf_path store.dir store.tree.len).dropLast ≠ some .directory)) := by
    refine Step.solo (by simp) fun w' choice r w'' hw' _ hallowed happly => ⟨trivial, ?_⟩
    subst hw'
    obtain ⟨e, rfl, rfl, herror⟩ | ⟨inode, fs, hcreate, rfl, rfl⟩ := World.attempt_eq_some happly
    · refine ⟨rfl, fun hfaultless => ?_⟩
      have hfailed := herror (by rintro rfl; cases hallowed hfaultless)
      by_contra hclear
      rw [not_or, not_not, not_not, Fs.view_eq_directory_iff, Fs.view_eq_none_iff] at hclear
      obtain ⟨made, hmade⟩ := Fs.exists_create_new_eq_ok hclear.2 hclear.1
      rw [hmade] at hfailed
      cases hfailed
    · exact Created.create_new hcreate rfl
  refine Keeps.op hcreate rfl fun r w' hB _ => ?_
  cases r with
  | error source =>
    obtain ⟨rfl, hclear⟩ := hB
    exact hunmade _ hclear
  | ok inode =>
    exact append_created_anywhere rfl rfl rfl hjson (fun _ _ => trivial) (fun hroom => hdone hroom inode) (fun h => hunwritten h inode)
      (hunstated inode) hpanic hB

end Append

end lys
