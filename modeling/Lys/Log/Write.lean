import Lys.Log.Leaves
import Lys.Posix.Solo

open rust effect posix

namespace lys

variable {Who Event : Type} {who : Who} {C : Contract (Calls Who Event)} {dir : Path}

section Paths

theorem append_component_ne {a b : String} (h : component a ≠ component b) :
    dir ++ [component a] ≠ dir ++ [component b] := by simpa using h

theorem config_path_ne_state_path : config_path dir ≠ state_path dir := append_component_ne (by decide)

theorem config_path_ne_tmp_path : config_path dir ≠ tmp_path dir := append_component_ne (by decide)

theorem config_path_ne_leaves_dir : config_path dir ≠ leaves_dir dir := append_component_ne (by decide)

theorem state_path_ne_tmp_path : state_path dir ≠ tmp_path dir := append_component_ne (by decide)

theorem state_path_ne_leaves_dir : state_path dir ≠ leaves_dir dir := append_component_ne (by decide)

theorem tmp_path_ne_leaves_dir : tmp_path dir ≠ leaves_dir dir := append_component_ne (by decide)

/-- An entry of `leaves/` is none of the files beside it. -/
theorem leaves_entry_ne (component name : Name) : leaves_dir dir ++ [name] ≠ dir ++ [component] := by
  intro h
  have hlength := congrArg List.length h
  simp [leaves_dir] at hlength

theorem config_path_ne_leaf_path {index : UInt64} : config_path dir ≠ leaf_path dir index := (leaves_entry_ne _ _).symm

theorem state_path_ne_leaf_path {index : UInt64} : state_path dir ≠ leaf_path dir index := (leaves_entry_ne _ _).symm

theorem tmp_path_ne_leaf_path {index : UInt64} : tmp_path dir ≠ leaf_path dir index := (leaves_entry_ne _ _).symm

theorem leaves_dir_ne_leaf_path {index : UInt64} : leaves_dir dir ≠ leaf_path dir index := (leaves_entry_ne _ _).symm

theorem leaf_path_injective : Function.Injective (leaf_path dir) := by
  intro i j h
  rw [leaf_path_eq, leaf_path_eq] at h
  exact leaf_entry_injective (by simpa using h)

end Paths

section State

variable [Base64] [SerdeJson LogState]

/-- The state that pins a root. -/
def pinned_state (root : RootHash) : LogState :=
  { tree_size := root.num_leaves, root_hash := Base64.encode root.root_hash.as_slice }

/-- The bytes of a state file for a root. -/
def StateBytes (root : RootHash) (json : Bytes) : Prop := state_json_bytes (pinned_state root) "log state" = .ok json

omit [Base64] [SerdeJson LogState] in
theorem exists_state_json_bytes {T : Type} [SerdeJson T] [LawfulSerdeJson T] (value : T) (what : String) :
    ∃ json, state_json_bytes value what = .ok json ∧ SerdeJson.from_slice json = .ok value := by
  obtain ⟨text, htext, hparse⟩ := LawfulSerdeJson.from_slice_pretty value
  refine ⟨as_bytes (text ++ ['\n']), ?_, hparse⟩
  rw [state_json_bytes, htext]
  rfl

variable [RustFmt] {A R Q : World Who Event → Prop} {T : Nat → Nat → World Who Event → Prop} {root : RootHash}
  {json : Bytes}

/-- Rewriting the state: the temporary file is created, written and renamed. -/
theorem write_state_keeps {post : Outcome CliError Unit → World Who Event → Prop} {w : World Who Event}
    (hjson : StateBytes root json)
    (hcreate : Step who C A (.create (tmp_path dir)) (Replied (T · 0) fun _ => Q))
    (hwrites : ∀ inode, Writes who C inode json (T inode) Q)
    (hrename : ∀ inode, Step who C (T inode json.length) (.rename (tmp_path dir) (state_path dir))
      (Replied (fun _ => R) fun _ => Q))
    (hdone : ∀ w, R w → C.inv w → post (.done ()) w) (hfail : ∀ w e, Q w → C.inv w → post (.failed e) w) (hw : A w) :
    Keeps who C post (write_state dir root) w := by
  have hprogram : (write_state dir root : Process Who Event Unit) =
      write_file (tmp_path dir) json "log state file" >>= fun _ =>
        (fs.rename (tmp_path dir) (state_path dir)).map_error fun source =>
          .Io s!"failed to atomically replace log state file {RustFmt.display (state_path dir)}" source := by
    rw [StateBytes, pinned_state] at hjson
    rw [write_state, RootHash.to_parts]
    simp only [hjson]
    rfl
  rw [hprogram]
  refine Keeps.bind (Keeps.map_error (Writes.write hcreate hwrites (fun inode w hT _ => ?_)
    (fun w e hQ hinv => hfail w _ hQ hinv) hw))
  refine Keeps.map_error (Keeps.op (hrename inode) hT fun r w hB hinv => ?_)
  cases r with
  | ok _ => exact hdone w hB hinv
  | error e => exact hfail w _ hB hinv

end State

section Append

variable [RustFmt] [Base64] [CtMerkle] [SerdeJson LogState] [Sha2] {A Q : World Who Event → Prop}
  {L : Nat → Nat → World Who Event → Prop} {store : LogStore} {leaf : Bytes}

/-- How an append ends after the state was written or not. -/
def Appended (post : Outcome CliError (LogStore × CliResult (UInt64 × U8Array 32)) → World Who Event → Prop)
    (store : LogStore) (leaf : Bytes) : Outcome CliError Unit → World Who Event → Prop
  | .done () => post (.done (store.push leaf, .ok (store.tree.len, raw_leaf_hash leaf)))
  | .failed e => post (.done (store.push leaf, .error e))
  | .panicked => post .panicked

/-- An append whose leaf file was created: the file is written, and the state rewritten. -/
theorem append_keeps_of_created
    {post : Outcome CliError (LogStore × CliResult (UInt64 × U8Array 32)) → World Who Event → Prop} {w : World Who Event}
    {next : Except IoError Nat → Process Who Event (LogStore × CliResult (UInt64 × U8Array 32))} {inode : Nat}
    {L : Nat → World Who Event → Prop}
    (happend : store.append leaf = .op (.create_new (leaf_path store.dir store.tree.len)) next)
    (hwrites : Writes who C inode leaf L Q)
    (hfail : ∀ w e, Q w → C.inv w → post (.done (store, .error e)) w)
    (hpanic : MAX_LEAVES < store.leaves.length + 1 → ∀ w, L leaf.length w → C.inv w → post .panicked w)
    (hstate : store.leaves.length + 1 ≤ MAX_LEAVES → ∀ w, L leaf.length w → C.inv w →
      Keeps who C (Appended post store leaf) (write_state store.dir (store.push leaf).tree.root) w)
    (hw : L 0 w) (hinv : C.inv w) : Keeps who C post (next (.ok inode)) w := by
  cases happend
  change Keeps who C post ((fs.write_all inode leaf.length 0 (leaf.drop 0)).attempt >>= _) w
  refine Keeps.bind (Keeps.attempt (hwrites.write_all (fun w hL hinv => ?_) (fun w e hQ hinv => hfail w _ hQ hinv)
    (Nat.zero_le _) (Nat.le_add_left ..) hw hinv))
  change Keeps who C post (if store.leaves.length + 1 > MAX_LEAVES then _ else _) w
  split
  next hlarge => exact hpanic hlarge w hL hinv
  next hroom =>
    refine Keeps.bind (Keeps.attempt ((hstate (Nat.not_lt.mp hroom) w hL hinv).mono fun out w hout => ?_))
    cases out with
    | done u => exact hout
    | failed e => exact hout
    | panicked => exact hout

/-- Appending: the leaf file is created, written, and the state rewritten. -/
theorem append_keeps {post : Outcome CliError (LogStore × CliResult (UInt64 × U8Array 32)) → World Who Event → Prop}
    {w : World Who Event}
    (hcreate : Step who C A (.create_new (leaf_path store.dir store.tree.len)) (Replied (L · 0) fun _ => Q))
    (hwrites : ∀ inode, Writes who C inode leaf (L inode) Q)
    (hfail : ∀ w e, Q w → C.inv w → post (.done (store, .error e)) w)
    (hpanic : MAX_LEAVES < store.leaves.length + 1 → ∀ inode w, L inode leaf.length w → C.inv w → post .panicked w)
    (hstate : store.leaves.length + 1 ≤ MAX_LEAVES → ∀ inode w, L inode leaf.length w → C.inv w →
      Keeps who C (Appended post store leaf) (write_state store.dir (store.push leaf).tree.root) w) (hw : A w) :
    Keeps who C post (store.append leaf) w := by
  refine Keeps.op hcreate hw fun r w hB hinv => ?_
  cases r with
  | error e => exact hfail w _ hB hinv
  | ok inode =>
    exact append_keeps_of_created rfl (hwrites inode) hfail (fun hlarge => hpanic hlarge inode)
      (fun hroom => hstate hroom inode) hB hinv

end Append

end lys
