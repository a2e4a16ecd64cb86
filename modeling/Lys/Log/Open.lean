import Lys.Log.Leaves

open rust effect posix

namespace lys

variable {Who Event : Type} {who : Who} {C : Contract (Calls Who Event)} {dir : Path}

section ReadLeaves

/-- A listing whose every name is passed over or names a leaf file. -/
def Clean (C : Contract (Calls Who Event)) (dir : Path) (A : World Who Event → Prop) (entries : Listing) : Prop :=
  (∀ op choice w, C.allowed op choice w → choice.faultless = true) ∧ ∀ entry ∈ entries, ∃ name, entry = .ok name ∧
    (hidden name = true ∨ ∃ index, name = leaf_entry index ∧
      ∀ w, A w → C.inv w → (w.fs.file (leaf_path dir index)).isSome)

variable {A : World Who Event → Prop}

theorem Clean.tail {entry : Except IoError Name} {entries : Listing} (h : Clean C dir A (entry :: entries)) :
    Clean C dir A entries := ⟨h.1, fun e he => h.2 e (List.mem_cons_of_mem _ he)⟩

variable [RustFmt]

/-- A name is passed over, names a leaf, or is refused. -/
theorem read_indices_cases (dir : Path) (name : Name) (entries : Listing) (indices : List UInt64) :
    (hidden name = true ∧
      (read_indices dir (.ok name :: entries) indices : Process Who Event (List UInt64)) =
        read_indices dir entries indices) ∨
    (∃ index, name = leaf_entry index ∧
      (read_indices dir (.ok name :: entries) indices : Process Who Event (List UInt64)) =
        call (.is_file (leaf_path dir index)) >>= fun is_file =>
          if is_file then read_indices dir entries (indices ++ [index])
          else .fail (invalid_leaf_entry dir (leaf_name index))) ∨
    (hidden name = false ∧ (∀ index, name ≠ leaf_entry index) ∧
      ∃ e, (read_indices dir (.ok name :: entries) indices : Process Who Event (List UInt64)) = .fail e) := by
  have htext : ∀ text, from_utf8 name = some text → ∀ index, name = leaf_entry index → text = leaf_name index := by
    rintro text hutf8 index rfl
    rw [leaf_entry, from_utf8_as_bytes] at hutf8
    exact (Option.some.inj hutf8).symm
  rw [read_indices]
  split
  next hutf8 =>
    refine .inr (.inr ⟨by rw [hidden, hutf8]; rfl, ?_, _, rfl⟩)
    rintro index rfl
    rw [leaf_entry, from_utf8_as_bytes] at hutf8
    cases hutf8
  next text hutf8 =>
    split
    next hdot => exact .inl ⟨by rw [hidden, hutf8, Option.any_some, hdot]; rfl, rfl⟩
    next hdot =>
      have hvisible : hidden name = false := by
        rw [hidden, hutf8, Option.any_some]
        exact decide_eq_false hdot
      split
      next hcheck =>
        refine .inr (.inr ⟨hvisible, fun index hname => ?_, _, rfl⟩)
        obtain rfl := htext text hutf8 index hname
        exact hcheck.elim (fun h => h (hname ▸ length_leaf_entry index)) fun h => h (all_isDigit_leaf_name index)
      next hcheck =>
        split
        next e hparse =>
          refine .inr (.inr ⟨hvisible, fun index hname => ?_, _, rfl⟩)
          obtain rfl := htext text hutf8 index hname
          rw [parse_u64_leaf_name] at hparse
          cases hparse
        next index hparse =>
          rw [not_or, not_not, not_not] at hcheck
          have hname : name = as_bytes text := from_utf8_eq_some_iff.mp hutf8
          have hlength := hcheck.1
          rw [hname, length_as_bytes_ascii (toNat_lt_of_all_isDigit hcheck.2)] at hlength
          obtain rfl := eq_leaf_name_of_parse_u64 hlength hcheck.2 hparse
          obtain rfl : name = leaf_entry index := hname
          exact .inr (.inl ⟨index, rfl, rfl⟩)

/-- The leaf file of an index was there. -/
def FileFound (C : Contract (Calls Who Event)) (dir : Path) (A : World Who Event → Prop) (index : UInt64) : Prop :=
  ∃ w, A w ∧ C.inv w ∧ (w.fs.file (leaf_path dir index)).isSome

/-- The listing gives the indices of the leaf files it names. -/
theorem read_indices_keeps {post : Outcome CliError (List UInt64) → World Who Event → Prop} {entries : Listing}
    {indices : List UInt64} {w : World Who Event} (hlooks : ∀ index, Looks who C A (.is_file (leaf_path dir index)))
    (hdone : ∀ w names found, A w → C.inv w → entries = names.map .ok → visible names = found.map leaf_entry →
      (∀ index ∈ found, FileFound C dir A index) → post (.done (indices ++ found)) w)
    (hfail : ¬ Clean C dir A entries → ∀ w e, A w → C.inv w → post (.failed e) w) (hw : A w) (hinv : C.inv w) :
    Keeps who C post (read_indices dir entries indices) w := by
  induction entries generalizing indices w with
  | nil =>
    have h := hdone w [] [] hw hinv rfl rfl nofun
    rw [List.append_nil] at h
    exact h
  | cons entry entries ih =>
    have htail : ¬ Clean C dir A entries → ∀ w e, A w → C.inv w → post (.failed e) w :=
      fun hclean => hfail fun h => hclean h.tail
    cases entry with
    | error source =>
      refine hfail (fun hclean => ?_) w _ hw hinv
      obtain ⟨name, hname, _⟩ := hclean.2 _ List.mem_cons_self
      cases hname
    | ok name =>
      obtain ⟨hhidden, heq⟩ | ⟨index, rfl, heq⟩ | ⟨hvisible, hentry, e, heq⟩ :=
        read_indices_cases dir name entries indices
      · rw [heq]
        refine ih (fun w names found hw hinv hentries hfound hfiles => ?_) htail hw hinv
        refine hdone w (name :: names) found hw hinv (by rw [hentries, List.map_cons]) ?_ hfiles
        rw [visible, List.filter_cons_of_neg (by simp [hhidden])]
        exact hfound
      · rw [heq]
        refine (hlooks index).call rfl hw fun w choice r hw hinv hallowed happly => ?_
        obtain ⟨_, htrue, hanswer⟩ := World.ask_eq_some happly
        cases r with
        | true =>
          have hhere : FileFound C dir A index := ⟨w, hw, hinv, htrue rfl⟩
          refine ih (fun w names found hw hinv hentries hfound hfiles => ?_) htail hw hinv
          rw [List.append_assoc, List.singleton_append]
          refine hdone w (leaf_entry index :: names) (index :: found) hw hinv (by rw [hentries, List.map_cons]) ?_ ?_
          · rw [visible, List.filter_cons_of_pos (by simp [hidden_leaf_entry]), List.map_cons]
            exact congrArg _ hfound
          · intro i hi
            rcases List.mem_cons.mp hi with rfl | hi
            · exact hhere
            · exact hfiles i hi
        | false =>
          refine hfail (fun hclean => ?_) w _ hw hinv
          obtain ⟨name', hname, hcase⟩ := hclean.2 _ List.mem_cons_self
          obtain rfl := Except.ok.inj hname
          obtain hhidden | ⟨index', hindex, hfile⟩ := hcase
          · rw [hidden_leaf_entry] at hhidden
            cases hhidden
          · obtain rfl := leaf_entry_injective hindex
            have hfaultless := hclean.1 _ _ _ hallowed
            have hisSome := hanswer (by rintro rfl; cases hfaultless)
            rw [hfile w hw hinv] at hisSome
            cases hisSome
      · rw [heq]
        refine hfail (fun hclean => ?_) w _ hw hinv
        obtain ⟨name', hname, hcase⟩ := hclean.2 _ List.mem_cons_self
        obtain rfl := Except.ok.inj hname
        obtain hhidden | ⟨index, hindex, _⟩ := hcase
        · rw [hvisible] at hhidden
          cases hhidden
        · exact hentry index hindex

omit [RustFmt] in
theorem check_contiguous_eq_ok_iff {expected : UInt64} {indices : List UInt64} :
    check_contiguous dir expected indices = .ok () ↔
      indices = (List.range indices.length).map fun i => expected + UInt64.ofNat i := by
  induction indices generalizing expected with
  | nil => simp [check_contiguous]
  | cons index indices ih =>
    rw [check_contiguous, bind_eq_ok_iff]
    simp only [reject_if_eq_ok_iff, not_not, exists_const]
    rw [ih, List.length_cons, List.range_succ_eq_map, List.map_cons, List.map_map, List.cons.injEq]
    refine and_congr (by simp) ?_
    have hshift : ((fun i => expected + UInt64.ofNat i) ∘ Nat.succ) = fun i => expected + 1 + UInt64.ofNat i := by
      funext i
      rw [Function.comp_apply, Nat.succ_eq_add_one, UInt64.ofNat_add, UInt64.add_assoc, UInt64.add_comm 1]
      rfl
    rw [hshift]

/-- Reading the leaf files of the indices in order. -/
theorem read_leaf_files_keeps {post : Outcome CliError (List Bytes) → World Who Event → Prop} {indices : List UInt64}
    {leaves : List Bytes} {w : World Who Event} (hlooks : ∀ index, Looks who C A (.read (leaf_path dir index)))
    (hdone : ∀ w found, A w → C.inv w → List.Forall₂ (fun index leaf => ∃ w choice, A w ∧ C.inv w ∧
      C.allowed (.read (leaf_path dir index)) choice w ∧ w.fs.file (leaf_path dir index) = some leaf) indices found →
      post (.done (leaves ++ found)) w)
    (hfail : ∀ index ∈ indices, ∀ w e choice, A w → C.inv w → C.allowed (.read (leaf_path dir index)) choice w →
      (choice.faultless = true → w.fs.file (leaf_path dir index) = none) → post (.failed e) w)
    (hw : A w) (hinv : C.inv w) : Keeps who C post (read_leaf_files dir indices leaves) w := by
  induction indices generalizing leaves w with
  | nil =>
    have h := hdone w [] hw hinv .nil
    rw [List.append_nil] at h
    exact h
  | cons index indices ih =>
    rw [read_leaf_files]
    refine (hlooks index).read hw (fun w leaf choice hw hinv hallowed hfile => ?_) (hfail index List.mem_cons_self)
    refine ih (fun w' found hw' hinv' hfound => ?_) (fun index hindex => hfail index (List.mem_cons_of_mem _ hindex))
      hw hinv
    rw [List.append_assoc, List.singleton_append]
    exact hdone w' (leaf :: found) hw' hinv' (.cons ⟨w, choice, hw, hinv, hallowed, hfile⟩ hfound)

end ReadLeaves

section ReadAll

variable {A₁ : World Who Event → Prop} {A₂ : List Name → World Who Event → Prop}

/-- What the listing and the leaf files have to be for nothing but their number to keep the
leaves from being read. -/
structure NumberedLeaves (C : Contract (Calls Who Event)) (dir : Path) (A₁ : World Who Event → Prop)
    (A₂ : List Name → World Who Event → Prop) : Prop where
  faultless : ∀ op choice w, C.allowed op choice w → choice.faultless = true
  directory : ∀ w, A₁ w → C.inv w → w.fs.find (leaves_dir dir) = some .directory
  entries : ∀ names w, A₂ names w → C.inv w → ∃ n ≤ 2 ^ 64, (visible names).Perm (leaf_entries n)
  files : ∀ names w index, A₂ names w → C.inv w → leaf_entry index ∈ names → (w.fs.file (leaf_path dir index)).isSome

/-- More leaves were listed than the vector of leaves takes. -/
structure Overfull (C : Contract (Calls Who Event)) (dir : Path) (A : World Who Event → Prop) (names : List Name)
    (n : Nat) : Prop where
  large : MAX_LEAVES < n
  entries : (visible names).Perm (leaf_entries n)
  files : ∀ i < n, FileFound C dir A (UInt64.ofNat i)

/-- The leaves read: the listing has the names of the first leaves, and each leaf was the
contents of its file. -/
structure LeavesRead (C : Contract (Calls Who Event)) (dir : Path) (A : World Who Event → Prop) (names : List Name)
    (leaves : List Bytes) : Prop where
  room : leaves.length ≤ MAX_LEAVES
  entries : (visible names).Perm (leaf_entries leaves.length)
  files : ∀ i leaf, leaves[i]? = some leaf → ∃ w choice, A w ∧ C.inv w ∧
    C.allowed (.read (leaf_path dir (UInt64.ofNat i))) choice w ∧ w.fs.file (leaf_path dir (UInt64.ofNat i)) = some leaf

/-- The found indices, sorted and without a gap, are the first ones. -/
theorem sorted_eq_range {found : List UInt64}
    (h : check_contiguous dir 0 (found.insertionSort (· ≤ ·)) = .ok ()) :
    found.insertionSort (· ≤ ·) = (List.range found.length).map UInt64.ofNat := by
  rw [check_contiguous_eq_ok_iff, List.length_insertionSort] at h
  rw [h]
  simp

theorem perm_leaf_entries {names : List Name} {found : List UInt64} (hfound : visible names = found.map leaf_entry)
    (h : check_contiguous dir 0 (found.insertionSort (· ≤ ·)) = .ok ()) :
    (visible names).Perm (leaf_entries found.length) := by
  have hperm := (List.perm_insertionSort (· ≤ ·) found).symm.map leaf_entry
  rw [sorted_eq_range h, List.map_map] at hperm
  rw [hfound]
  exact hperm

/-- The first indices in some order have no gap. -/
theorem check_contiguous_of_perm {found : List UInt64} {n : Nat} (hn : n ≤ 2 ^ 64)
    (h : (found.map leaf_entry).Perm (leaf_entries n)) :
    found.length = n ∧ check_contiguous dir 0 (found.insertionSort (· ≤ ·)) = .ok () := by
  have hlength : found.length = n := by simpa using h.length_eq
  have hperm : found.Perm ((List.range n).map UInt64.ofNat) := by
    have hentries : leaf_entries n = ((List.range n).map UInt64.ofNat).map leaf_entry := by
      rw [leaf_entries, List.map_map]
      rfl
    rw [hentries] at h
    exact (List.map_perm_map_iff leaf_entry_injective).mp h
  have hsorted : ((List.range n).map UInt64.ofNat).Pairwise (· ≤ ·) := by
    rw [List.pairwise_map]
    refine List.pairwise_lt_range.imp_of_mem fun {i j} hi hj hlt => ?_
    rw [List.mem_range] at hi hj
    rw [UInt64.le_iff_toNat_le, toNat_ofNat_of_lt (by omega), toNat_ofNat_of_lt (by omega)]
    exact hlt.le
  refine ⟨hlength, check_contiguous_eq_ok_iff.mpr ?_⟩
  have hsort : found.insertionSort (· ≤ ·) = (List.range n).map UInt64.ofNat :=
    (((List.perm_insertionSort (· ≤ ·) found).trans hperm).eq_of_pairwise' (List.pairwise_insertionSort _ _) hsorted)
  rw [hsort]
  simp

theorem mem_of_mem_visible {names : List Name} {name : Name} (h : name ∈ visible names) : name ∈ names :=
  List.mem_of_mem_filter h

/-- Enumerating, checking and reading `leaves/`. -/
theorem read_leaves_keeps [RustFmt] {post : Outcome CliError (List Bytes) → World Who Event → Prop}
    {w : World Who Event} (hlist : Looks who C A₁ (.read_dir (leaves_dir dir)))
    (hfile : ∀ names index, Looks who C (A₂ names) (.is_file (leaf_path dir index)))
    (hread : ∀ names index, Looks who C (A₂ names) (.read (leaf_path dir index)))
    (hcut : (∃ names w, C.allowed (.read_dir (leaves_dir dir)) (.cut names) w) →
      ∀ index, Looks who C A₁ (.is_file (leaf_path dir index)))
    (hseen : ∀ w names, A₁ w → C.inv w → w.fs.find (leaves_dir dir) = some .directory →
      names.Perm (w.fs.children (leaves_dir dir)) → A₂ names w)
    (hdone : ∀ w names leaves, A₂ names w → C.inv w → LeavesRead C dir (A₂ names) names leaves → post (.done leaves) w)
    (hfail : ¬ NumberedLeaves C dir A₁ A₂ → ∀ w e, (A₁ w ∨ ∃ names, A₂ names w) → C.inv w → post (.failed e) w)
    (hpanic : ∀ w names n, A₂ names w → C.inv w → Overfull C dir (A₂ names) names n → post .panicked w) (hw : A₁ w) :
    Keeps who C post (read_leaves dir) w := by
  have hpath : leaves_dir dir ≠ [] := by simp [leaves_dir]
  refine hlist.call rfl hw fun w choice r hw hinv hallowed happly => ?_
  obtain ⟨_, ⟨e, rfl, herror⟩ | ⟨present, names, hpresent, rfl, hperm⟩ | ⟨names, rfl, rfl⟩⟩ := World.list_eq_some happly
  · refine hfail (fun hreadable => ?_) w _ (.inl hw) hinv
    have hlisted := (Fs.read_dir_eq_ok_iff hpath).mpr ⟨hreadable.directory w hw hinv, rfl⟩
    have hfaultless := hreadable.faultless _ _ _ hallowed
    rw [herror (by rintro rfl; cases hfaultless)] at hlisted
    cases hlisted
  · obtain ⟨hdirectory, rfl⟩ := (Fs.read_dir_eq_ok_iff hpath).mp hpresent
    have hnames := hseen w names hw hinv hdirectory hperm
    have hbroken : ∀ w, A₂ names w → C.inv w → ¬ Clean C dir (A₂ names) (names.map .ok) →
        ¬ NumberedLeaves C dir A₁ A₂ := by
      intro w hw hinv hclean hreadable
      refine hclean ⟨hreadable.faultless, fun entry hentry => ?_⟩
      obtain ⟨name, hname, rfl⟩ := List.mem_map.mp hentry
      refine ⟨name, rfl, ?_⟩
      cases hhidden : hidden name with
      | true => exact .inl rfl
      | false =>
        obtain ⟨n, _, hentries⟩ := hreadable.entries names w hw hinv
        have hmem : name ∈ visible names := List.mem_filter.mpr ⟨hname, by simp [hhidden]⟩
        obtain ⟨i, _, rfl⟩ := mem_leaf_entries_iff.mp (hentries.mem_iff.mp hmem)
        exact .inr ⟨_, rfl, fun w hw hinv => hreadable.files names w _ hw hinv hname⟩
    change Keeps who C post (read_indices dir (names.map .ok) [] >>= _) w
    refine Keeps.bind (read_indices_keeps (hfile names) ?_ ?_ hnames hinv)
    · intro w names' found hw hinv hnames' hfound hfiles
      obtain rfl : names = names' := List.map_injective_iff.mpr (fun _ _ => Except.ok.inj) hnames'
      rw [List.nil_append]
      change Keeps who C post (_ >>= _) w
      cases hcheck : check_contiguous dir 0 (found.insertionSort (· ≤ ·)) with
      | error e =>
        refine hfail (fun hreadable => ?_) w _ (.inr ⟨names, hw⟩) hinv
        obtain ⟨n, hn, hentries⟩ := hreadable.entries names w hw hinv
        rw [hfound] at hentries
        rw [(check_contiguous_of_perm hn hentries).2] at hcheck
        cases hcheck
      | ok u =>
        have hentries := perm_leaf_entries hfound hcheck
        rw [Prog.of_except_ok, Prog.ret_bind, List.length_insertionSort]
        split
        next hlarge =>
          refine hpanic w names found.length hw hinv ⟨hlarge, hentries, fun i hi => hfiles _ ?_⟩
          rw [← List.mem_insertionSort (· ≤ ·), sorted_eq_range hcheck]
          exact List.mem_map_of_mem (List.mem_range.mpr hi)
        next hroom =>
          rw [sorted_eq_range hcheck]
          refine read_leaf_files_keeps (hread names) (fun w leaves hw hinv hleaves => ?_) ?_ hw hinv
          · rw [List.nil_append]
            have hlength : leaves.length = found.length := by simpa using hleaves.length_eq.symm
            refine hdone w names leaves hw hinv ⟨by omega, by rw [hlength]; exact hentries, fun i leaf hleaf => ?_⟩
            obtain ⟨hi, rfl⟩ := List.getElem?_eq_some_iff.mp hleaf
            simpa using hleaves.get (by simp; omega) hi
          · intro index hindex w e choice hw hinv hallowed hfile'
            refine hfail (fun hreadable => ?_) w e (.inr ⟨names, hw⟩) hinv
            have hmem : leaf_entry index ∈ names := by
              obtain ⟨i, hi, rfl⟩ := List.mem_map.mp hindex
              refine mem_of_mem_visible (hentries.mem_iff.mpr (mem_leaf_entries_iff.mpr ⟨i, ?_, rfl⟩))
              exact List.mem_range.mp hi
            have hsome := hreadable.files names w index hw hinv hmem
            rw [hfile' (hreadable.faultless _ _ _ hallowed)] at hsome
            cases hsome
    · exact fun hclean w e hw hinv => hfail (hbroken w hw hinv hclean) w e (.inr ⟨names, hw⟩) hinv
  · have hfaulty : ¬ NumberedLeaves C dir A₁ A₂ := fun hreadable => by
      have hfaultless := hreadable.faultless _ _ _ hallowed
      cases hfaultless
    change Keeps who C post (read_indices dir (names.map .ok ++ [.error .Other]) [] >>= _) w
    refine Keeps.bind (read_indices_keeps (hcut ⟨_, _, hallowed⟩) (fun w names' found _ _ hnames' _ _ => ?_)
      (fun _ w e hw hinv => hfail hfaulty w e (.inl hw) hinv) hw hinv)
    have hmem : (Except.error IoError.Other : Except IoError Name) ∈ names'.map Except.ok := by
      rw [← hnames']
      simp
    obtain ⟨_, _, hbad⟩ := List.mem_map.mp hmem
    cases hbad

end ReadAll

section Open

variable [RustFmt] {ε α : Type} {post : Outcome CliError α → World Who Event → Prop} {w : World Who Event}

theorem parse_state_file_keeps {T : Type} [SerdeJson T] {A : World Who Event → Prop} {path : Path} {what : String}
    {next : T → Process Who Event α} (hlooks : Looks who C A (.read path)) (hw : A w)
    (hok : ∀ w bytes value, A w → C.inv w → w.fs.file path = some bytes → SerdeJson.from_slice bytes = .ok value →
      Keeps who C post (next value) w)
    (hfail : ∀ w e choice, A w → C.inv w → C.allowed (.read path) choice w → (choice.faultless = true →
      ∀ bytes (value : T), w.fs.file path = some bytes → SerdeJson.from_slice bytes ≠ .ok value) → post (.failed e) w) :
    Keeps who C post (parse_state_file dir path what >>= next) w := by
  rw [parse_state_file, Prog.bind_assoc]
  refine hlooks.read hw (fun w bytes choice hw hinv hallowed hfile => ?_) fun w e choice hw hinv hallowed hnone => ?_
  · cases hparse : (SerdeJson.from_slice bytes : Except String T) with
    | ok value => exact hok w bytes value hw hinv hfile hparse
    | error e =>
      refine hfail w _ choice hw hinv hallowed fun _ bytes' value hfile' hparse' => ?_
      obtain rfl := Option.some.inj (hfile.symm.trans hfile')
      rw [hparse] at hparse'
      cases hparse'
  · refine hfail w e choice hw hinv hallowed fun hfaultless bytes value hfile => ?_
    rw [hnone hfaultless] at hfile
    cases hfile

variable [Base64] [SerdeJson LogConfig] [SerdeJson LogState] {A₀ : World Who Event → Prop}
  {A₁ : Bytes → World Who Event → Prop} {A₂ : Bytes → List Name → World Who Event → Prop}

/-- What was read of a log directory: the configuration, the bytes of the state, the
listing and the leaves. -/
structure Observed (C : Contract (Calls Who Event)) (dir : Path) (A₀ : World Who Event → Prop)
    (A₂ : Bytes → List Name → World Who Event → Prop) (bytes : Bytes) (names : List Name) (store : LogStore)
    (size : UInt64) (root : U8Array 32) : Prop where
  dir_eq : store.dir = dir
  config : ∃ w bytes, A₀ w ∧ C.inv w ∧ w.fs.file (config_path dir) = some bytes ∧
    SerdeJson.from_slice bytes = .ok ({ format := LOG_DIR_FORMAT, origin := store.origin } : LogConfig)
  state : ∃ root_hash, SerdeJson.from_slice bytes = .ok ({ tree_size := size, root_hash } : LogState) ∧
    decode_pinned_root dir root_hash = .ok root
  leaves : LeavesRead C dir (A₂ bytes names) names store.leaves

/-- `open` up to the comparison with the pinned state: the handle, and the size and the root
that the state pins. -/
def LogStore.read_log (dir : Path) : Process Who Event (LogStore × UInt64 × U8Array 32) := do
  if !(← call (.path_exists (config_path dir))) then .fail (.LogDirMissing dir)
  let config : LogConfig ← parse_state_file dir (config_path dir) "log.json"
  if config.format ≠ LOG_DIR_FORMAT then
    .fail (.LogDirInvalid dir
      s!"log.json format is {RustFmt.debug config.format}, expected {RustFmt.debug LOG_DIR_FORMAT}")
  let state : LogState ← parse_state_file dir (state_path dir) "state.json"
  let pinned_root ← Prog.of_except (decode_pinned_root dir state.root_hash)
  let leaves ← read_leaves dir
  let tree := AppendOnlyTree.reconstruct_from_raw_leaves leaves
  let store : LogStore := ⟨dir, config.origin, leaves, tree, AppendOnlyTree.leaves_reconstruct_from_raw_leaves leaves⟩
  return (store, state.tree_size, pinned_root)

/-- Opening compares what it read with the pinned state. -/
theorem LogStore.openLog_eq [CtMerkle] [BuildProfile] (dir : Path) :
    (LogStore.openLog dir : Process Who Event LogStore) = LogStore.read_log dir >>= fun (store, size, root) =>
      store.check_against_state size root >>= fun _ => pure store := by
  rw [openLog, read_log, Prog.bind_assoc]
  refine bind_congr fun present => ?_
  cases present with
  | false => rfl
  | true =>
    simp only [Bool.not_true, Bool.false_eq_true, if_false]
    rw [Prog.bind_assoc]
    refine bind_congr fun config => ?_
    split
    next => rfl
    next =>
      rw [Prog.bind_assoc]
      refine bind_congr fun state => ?_
      rw [Prog.bind_assoc]
      refine bind_congr fun pinned_root => ?_
      rw [Prog.bind_assoc]
      rfl

/-- What the files of a log directory have to be for nothing but the number of leaves to keep
them from being read. -/
structure Legible (C : Contract (Calls Who Event)) (dir : Path) (A₀ : World Who Event → Prop)
    (A₁ : Bytes → World Who Event → Prop) (A₂ : Bytes → List Name → World Who Event → Prop) : Prop where
  config : ∀ w, A₀ w → C.inv w → ∃ bytes origin, w.fs.file (config_path dir) = some bytes ∧
    SerdeJson.from_slice bytes = .ok ({ format := LOG_DIR_FORMAT, origin } : LogConfig)
  state : ∀ w, A₀ w → C.inv w → ∃ bytes, w.fs.file (state_path dir) = some bytes ∧ ∃ (state : LogState) (root : U8Array 32),
    SerdeJson.from_slice bytes = .ok state ∧ decode_pinned_root dir state.root_hash = .ok root
  leaves : ∀ bytes, NumberedLeaves C dir (A₁ bytes) (A₂ bytes)

/-- Reading a log directory, up to the comparison with the pinned state. -/
theorem read_log_keeps {post : Outcome CliError (LogStore × UInt64 × U8Array 32) → World Who Event → Prop}
    (hexists : Looks who C A₀ (.path_exists (config_path dir)))
    (hconfig : Looks who C A₀ (.read (config_path dir))) (hstate : Looks who C A₀ (.read (state_path dir)))
    (hlist : ∀ bytes, Looks who C (A₁ bytes) (.read_dir (leaves_dir dir)))
    (hcut : (∃ names w, C.allowed (.read_dir (leaves_dir dir)) (.cut names) w) →
      ∀ bytes index, Looks who C (A₁ bytes) (.is_file (leaf_path dir index)))
    (hfile : ∀ bytes names index, Looks who C (A₂ bytes names) (.is_file (leaf_path dir index)))
    (hread : ∀ bytes names index, Looks who C (A₂ bytes names) (.read (leaf_path dir index)))
    (hpinned : ∀ w bytes, A₀ w → C.inv w → w.fs.file (state_path dir) = some bytes → A₁ bytes w)
    (hseen : ∀ w bytes names, A₁ bytes w → C.inv w → w.fs.find (leaves_dir dir) = some .directory →
      names.Perm (w.fs.children (leaves_dir dir)) → A₂ bytes names w)
    (hfail : ¬ Legible C dir A₀ A₁ A₂ →
      ∀ w e, (A₀ w ∨ (∃ bytes, A₁ bytes w) ∨ ∃ bytes names, A₂ bytes names w) → C.inv w → post (.failed e) w)
    (hpanic : ∀ w bytes names n, A₂ bytes names w → C.inv w →
      (∃ origin, ∃ w bytes, A₀ w ∧ C.inv w ∧ w.fs.file (config_path dir) = some bytes ∧
        SerdeJson.from_slice bytes = .ok ({ format := LOG_DIR_FORMAT, origin } : LogConfig)) →
      (∃ (size : UInt64) (root : U8Array 32) (root_hash : Str),
        SerdeJson.from_slice bytes = .ok ({ tree_size := size, root_hash } : LogState) ∧
        decode_pinned_root dir root_hash = .ok root) →
      Overfull C dir (A₂ bytes names) names n → post .panicked w)
    (hdone : ∀ w bytes names store size root, A₂ bytes names w → C.inv w →
      Observed C dir A₀ A₂ bytes names store size root → post (.done (store, size, root)) w) (hw : A₀ w) :
    Keeps who C post (LogStore.read_log dir) w := by
  refine hexists.call rfl hw fun w choice r hw hinv hallowed happly => ?_
  obtain ⟨_, _, hanswer⟩ := World.ask_eq_some happly
  cases r with
  | false =>
    refine hfail (fun hreadable => ?_) w _ (.inl hw) hinv
    obtain ⟨bytes, _, hfound, _⟩ := hreadable.config w hw hinv
    obtain ⟨inode, hfind, _⟩ := Fs.file_eq_some_iff.mp hfound
    have hfaultless := (hreadable.leaves []).faultless _ _ _ hallowed
    have hisSome := hanswer (by rintro rfl; cases hfaultless)
    rw [hfind] at hisSome
    cases hisSome
  | true =>
    change Keeps who C post (parse_state_file dir (config_path dir) "log.json" >>= _) w
    refine parse_state_file_keeps hconfig hw (fun w config_bytes config hw hinv hconfigFile hconfigParse => ?_)
      fun w e choice hw hinv hallowed hbroken => hfail (fun hreadable => ?_) w e (.inl hw) hinv
    · split
      next hformat =>
        refine hfail (fun hreadable => ?_) w _ (.inl hw) hinv
        obtain ⟨bytes, origin, hfound, hparse⟩ := hreadable.config w hw hinv
        obtain rfl := Option.some.inj (hconfigFile.symm.trans hfound)
        rw [hconfigParse] at hparse
        rw [Except.ok.inj hparse] at hformat
        exact hformat rfl
      next hformat =>
        rw [not_not] at hformat
        have hconfigSeen : ∃ w bytes, A₀ w ∧ C.inv w ∧ w.fs.file (config_path dir) = some bytes ∧
            SerdeJson.from_slice bytes = .ok ({ format := LOG_DIR_FORMAT, origin := config.origin } : LogConfig) :=
          ⟨w, config_bytes, hw, hinv, hconfigFile, by rw [hconfigParse, ← hformat]⟩
        refine parse_state_file_keeps hstate hw (fun w bytes state hw hinv hstateFile hstateParse => ?_)
          fun w e choice hw hinv hallowed hbroken => hfail (fun hreadable => ?_) w e (.inl hw) hinv
        · cases hroot : decode_pinned_root dir state.root_hash with
          | error e =>
            refine hfail (fun hreadable => ?_) w _ (.inl hw) hinv
            obtain ⟨bytes', hfound, state', root, hparse, hdecode⟩ := hreadable.state w hw hinv
            obtain rfl := Option.some.inj (hstateFile.symm.trans hfound)
            rw [hstateParse] at hparse
            rw [← Except.ok.inj hparse, hroot] at hdecode
            cases hdecode
          | ok root =>
            change Keeps who C post (read_leaves dir >>= _) w
            refine Keeps.bind (read_leaves_keeps (hlist bytes) (hfile bytes) (hread bytes)
              (fun hallowed => hcut hallowed bytes) (fun w names => hseen w bytes names)
              (fun w names leaves hw hinv hleaves => ?_) ?_ ?_ (hpinned w bytes hw hinv hstateFile))
            · exact hdone w bytes names ⟨dir, config.origin, leaves, _, _⟩ _ root hw hinv
                ⟨rfl, hconfigSeen, ⟨state.root_hash, hstateParse, hroot⟩, hleaves⟩
            · intro hbroken w e hw hinv
              refine hfail (fun hreadable => hbroken (hreadable.leaves bytes)) w e ?_ hinv
              exact .inr (hw.imp (fun hw => ⟨bytes, hw⟩) fun ⟨names, hw⟩ => ⟨bytes, names, hw⟩)
            · intro w names n hw hinv hover
              exact hpanic w bytes names n hw hinv ⟨config.origin, hconfigSeen⟩
                ⟨_, root, state.root_hash, hstateParse, hroot⟩ hover
        · obtain ⟨bytes, hfound, state, root, hparse, _⟩ := hreadable.state w hw hinv
          exact hbroken ((hreadable.leaves []).faultless _ _ _ hallowed) bytes state hfound hparse
    · obtain ⟨bytes, origin, hfound, hparse⟩ := hreadable.config w hw hinv
      exact hbroken ((hreadable.leaves []).faultless _ _ _ hallowed) bytes _ hfound hparse

end Open

section Check

theorem LogStore.tree_len (store : LogStore) : store.tree.len = UInt64.ofNat store.leaves.length := by
  rw [AppendOnlyTree.len, store.tree_leaves]

theorem LogStore.toNat_tree_len {store : LogStore} (hroom : store.leaves.length ≤ MAX_LEAVES) :
    store.tree.len.toNat = store.leaves.length := by
  have hlength : store.tree.leaves.length ≤ MAX_LEAVES := by rw [store.tree_leaves]; exact hroom
  rw [AppendOnlyTree.toNat_len (hlength.trans_lt (by decide)), store.tree_leaves]

theorem LogStore.prefix_tree_eq_ok {store : LogStore} {size : UInt64} (h : size.toNat ≤ store.leaves.length) :
    store.prefix_tree size = .ok ⟨store.leaves.take size.toNat⟩ := by
  rw [prefix_tree, reject_if_of_not (not_not.mpr h), AppendOnlyTree.reconstruct_from_raw_leaves_eq]
  rfl

theorem LogStore.exists_prefix_tree_eq_error {store : LogStore} (size : UInt64)
    (h : store.leaves.length < size.toNat) : ∃ e, store.prefix_tree size = .error e := by
  rw [prefix_tree, reject_if, if_pos (by omega)]
  exact ⟨_, rfl⟩

variable [CtMerkle]

/-- The leaves are the pinned ones. -/
def Pinned (leaves : List Bytes) (size : UInt64) (root : U8Array 32) : Prop :=
  leaves.length = size.toNat ∧ CtMerkle.root leaves = root

/-- The leaves are the pinned ones and one more. -/
def OneMore (leaves : List Bytes) (size : UInt64) (root : U8Array 32) : Prop :=
  leaves.length = size.toNat + 1 ∧ CtMerkle.root (leaves.take size.toNat) = root

variable [RustFmt] [Base64] [SerdeJson LogState] [BuildProfile]

/-- The pinned leaves are accepted, one more leaf is written to the state, and anything
else is refused. -/
theorem check_against_state_cases (store : LogStore) (size : UInt64) (root : U8Array 32)
    (hroom : store.leaves.length ≤ MAX_LEAVES) :
    (store.check_against_state size root = (.ret () : Process Who Event Unit) ∧ Pinned store.leaves size root) ∨
    (store.check_against_state size root = (write_state store.dir store.tree.root : Process Who Event Unit) ∧
      OneMore store.leaves size root) ∨
    (((∃ e, store.check_against_state size root = (.fail e : Process Who Event Unit)) ∨
        store.check_against_state size root = (.panic : Process Who Event Unit) ∧ size.toNat + 1 = 2 ^ 64) ∧
      ¬ Pinned store.leaves size root ∧ ¬ OneMore store.leaves size root) := by
  have hlen := store.toNat_tree_len hroom
  have hbound : store.leaves.length < 2 ^ 64 := hroom.trans_lt (by decide)
  have hpinned : (store.tree.len = size ∧ CtMerkle.root store.tree.leaves = root) ↔ Pinned store.leaves size root := by
    rw [Pinned, ← UInt64.toNat_inj, hlen, store.tree_leaves]
  by_cases hmatch : store.tree.len = size ∧ CtMerkle.root store.tree.leaves = root
  · refine .inl ⟨?_, hpinned.mp hmatch⟩
    rw [LogStore.check_against_state]
    exact if_pos hmatch
  right
  obtain ⟨e, hcheck⟩ : ∃ e, (store.check_against_state size root : Process Who Event Unit) =
      add_u64 size 1 >>= fun sum => if store.tree.len = sum then
        Prog.of_except (store.prefix_tree size) >>= fun prefixTree =>
          if CtMerkle.root prefixTree.leaves = root then write_state store.dir store.tree.root else .fail e
      else .fail e := by
    rw [LogStore.check_against_state]
    exact ⟨_, if_neg hmatch⟩
  rw [hcheck]
  rw [hpinned] at hmatch
  rw [add_u64]
  split
  next hsum =>
    rw [Prog.pure_eq, Prog.ret_bind]
    have hsumNat : (size + 1).toNat = size.toNat + 1 := by
      rw [UInt64.toNat_add]
      exact Nat.mod_eq_of_lt hsum
    split
    next hone =>
      have hlength : store.leaves.length = size.toNat + 1 := by rw [← hlen, hone, hsumNat]
      rw [LogStore.prefix_tree_eq_ok (by omega), Prog.of_except_ok, Prog.ret_bind]
      split
      next hroot => exact .inl ⟨rfl, hlength, hroot⟩
      next hroot => exact .inr ⟨.inl ⟨e, rfl⟩, hmatch, fun honeMore => hroot honeMore.2⟩
    next hone =>
      refine .inr ⟨.inl ⟨e, rfl⟩, hmatch, fun honeMore => hone ?_⟩
      rw [← UInt64.toNat_inj, hlen, hsumNat, honeMore.1]
  next hsum =>
    have hmax : size.toNat + 1 = 2 ^ 64 := by
      have hlt := size.toNat_lt
      have hone : (1 : UInt64).toNat = 1 := rfl
      omega
    have hnot : ¬ OneMore store.leaves size root := fun honeMore => by
      have hlength := honeMore.1
      omega
    split
    next => exact .inr ⟨.inr ⟨rfl, hmax⟩, hmatch, hnot⟩
    next =>
      rw [Prog.pure_eq, Prog.ret_bind]
      obtain ⟨e', he'⟩ := @LogStore.exists_prefix_tree_eq_error store size (by
        have hmaxLeaves : MAX_LEAVES < 2 ^ 63 := by decide
        omega)
      split
      next =>
        rw [he']
        exact .inr ⟨.inl ⟨e', rfl⟩, hmatch, hnot⟩
      next => exact .inr ⟨.inl ⟨e, rfl⟩, hmatch, hnot⟩

end Check

end lys
