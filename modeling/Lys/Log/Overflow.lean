import Lys.Log.Reference
import Lys.Log.Layout
import Lys.Posix.Runs

open rust effect posix

namespace lys

variable {Who Event : Type} {who : Who} {dir : Path} {w : World Who Event}

section Counter

/-- Every advance of the counter `0u64..` stays within `u64` in the loop over the indices. The
counter is advanced before the next index is asked for. -/
def CounterFits : UInt64 → List UInt64 → Prop
  | expected, [] => expected.toNat + 1 < 2 ^ 64
  | expected, index :: indices => expected.toNat + 1 < 2 ^ 64 ∧ (index = expected → CounterFits (expected + 1) indices)

theorem toNat_add_one {n : UInt64} (h : n.toNat + 1 < 2 ^ 64) : (n + 1).toNat = n.toNat + 1 := by
  rw [UInt64.toNat_add]
  exact Nat.mod_eq_of_lt h

/-- Over ascending indices the counter leaves `u64` only behind the last one that there is. -/
theorem counterFits_or {expected : UInt64} {indices : List UInt64} (hsorted : indices.Pairwise (· < ·))
    (hge : ∀ index ∈ indices, expected.toNat ≤ index.toNat) : CounterFits expected indices ∨
      check_contiguous dir expected indices = .ok () ∧ 2 ^ 64 ≤ expected.toNat + indices.length + 1 := by
  induction indices generalizing expected with
  | nil =>
    by_cases hfits : expected.toNat + 1 < 2 ^ 64
    · exact .inl hfits
    · exact .inr ⟨rfl, not_lt.mp hfits⟩
  | cons index indices ih =>
    rw [List.pairwise_cons] at hsorted
    have hindex := hge index List.mem_cons_self
    by_cases hmatch : index = expected
    · subst hmatch
      have hrest : ∀ i ∈ indices, index.toNat + 1 ≤ i.toNat := fun i hi => UInt64.lt_iff_toNat_lt.mp (hsorted.1 i hi)
      have hcheck : check_contiguous dir index (index :: indices) = check_contiguous dir (index + 1) indices := by
        rw [check_contiguous, reject_if_of_not (by simp)]
        rfl
      rw [hcheck, List.length_cons]
      by_cases hfits : index.toNat + 1 < 2 ^ 64
      · have hone := toNat_add_one hfits
        have hge' : ∀ i ∈ indices, (index + 1).toNat ≤ i.toNat := fun i hi => by
          rw [hone]
          exact hrest i hi
        obtain hcounter | ⟨hok, hlength⟩ := ih hsorted.2 hge'
        · exact .inl ⟨hfits, fun _ => hcounter⟩
        · exact .inr ⟨hok, by omega⟩
      · cases indices with
        | nil => exact .inr ⟨rfl, by simp; omega⟩
        | cons i indices =>
          have hlast := hrest i List.mem_cons_self
          have hlt := i.toNat_lt
          omega
    · refine .inl ⟨?_, fun h => absurd h hmatch⟩
      have hne : index.toNat ≠ expected.toNat := fun h => hmatch (UInt64.toNat_inj.mp h)
      have hlt := index.toNat_lt
      omega

end Counter

section Write

variable [RustFmt] [Base64] [SerdeJson LogState]

/-- Rewriting the state panics nowhere. -/
theorem neverPanics_write_state (dir : Path) (root : RootHash) :
    NeverPanics (write_state dir root : Process Who Event Unit) := by
  rw [write_state]
  refine (neverPanics_of_except _).bind fun json => ?_
  refine (neverPanics_write _ _).map_error.bind fun _ => ?_
  exact NeverPanics.map_error fun r => neverPanics_of_except r

variable [CtMerkle] [BuildProfile] {store : LogStore} {size : UInt64} {root : U8Array 32}

/-- The last size there is cannot be compared with. -/
theorem check_against_state_max (hroom : store.leaves.length ≤ MAX_LEAVES) (hmax : size.toNat + 1 = 2 ^ 64)
    (hchecks : BuildProfile.overflow_checks = true) :
    store.check_against_state size root = (.panic : Process Who Event Unit) := by
  have hlen := store.toNat_tree_len hroom
  have hbound : MAX_LEAVES < 2 ^ 63 := by decide
  have hmatch : ¬ (store.tree.len = size ∧ CtMerkle.root store.tree.leaves = root) := by
    rintro ⟨rfl, _⟩
    omega
  have hsum : ¬ size.toNat + (1 : UInt64).toNat < 2 ^ 64 := by
    change ¬ size.toNat + 1 < 2 ^ 64
    omega
  rw [LogStore.check_against_state]
  refine (if_neg hmatch).trans ?_
  rw [add_u64, if_neg hsum, if_pos hchecks]
  rfl

/-- Below it nothing panics. -/
theorem neverPanics_check_against_state (hroom : store.leaves.length ≤ MAX_LEAVES) (hsize : size.toNat + 1 < 2 ^ 64) :
    NeverPanics (store.check_against_state size root : Process Who Event Unit) := by
  obtain ⟨hcheck, _⟩ | ⟨hcheck, _⟩ | ⟨⟨e, hcheck⟩ | ⟨_, hmax⟩, _⟩ :=
    @check_against_state_cases Who Event _ _ _ _ _ store size root hroom
  · rw [hcheck]
    trivial
  · rw [hcheck]
    exact neverPanics_write_state _ _
  · rw [hcheck]
    trivial
  · omega

end Write

section Overflow

variable [SerdeJson LogConfig] [SerdeJson LogState] [Base64] [RustFmt]

section Runs

variable {choices : List Choice} {store : LogStore} {size : UInt64} {root : U8Array 32}

/-- What was read stands in the directory. -/
theorem found_of_read_log
    (h : (run who (LogStore.read_log dir) choices w).outcome = some (.done (store, size, root))) :
    Found w.fs.view dir store size root := by
  have hkeeps : Keeps who (solo (fun _ => True) false) (fun out _ => ∀ store size root,
      out = .done (store, size, root) → Found w.fs.view dir store size root) (LogStore.read_log dir) w := by
    refine read_log_solo ?_ (fun _ e => nofun) fun _ _ _ _ => nofun
    rintro store size root hfound _ _ _ ⟨⟩
    exact hfound
  exact (run_solo hkeeps trivial).2 _ h store size root rfl

/-- Reading panics over more leaves than the vector takes, and over nothing else. -/
theorem parses_of_read_log_panicked
    (h : (run who (LogStore.read_log dir) choices w).outcome = some .panicked) :
    ∃ n size, Parses w.fs.view dir n size ∧ MAX_LEAVES < n := by
  have hkeeps : Keeps who (solo (fun _ => True) false) (fun out _ => out = .panicked →
      ∃ n size, Parses w.fs.view dir n size ∧ MAX_LEAVES < n) (LogStore.read_log dir) w :=
    read_log_solo (fun _ _ _ _ => nofun) (fun _ e => nofun) fun n size hparses hlarge _ => ⟨n, size, hparses, hlarge⟩
  exact (run_solo hkeeps trivial).2 _ h rfl

/-- A directory that parses is read by some run, or has too many leaves for one. -/
theorem exists_read_log {n : Nat} (who : Who) (h : Parses w.fs.view dir n size) :
    ∃ choices, (∃ store root, (run who (LogStore.read_log dir) choices w).outcome = some (.done (store, size, root)) ∧
        Found w.fs.view dir store size root ∧ store.leaves.length = n) ∨
      (run who (LogStore.read_log dir) choices w).outcome = some .panicked := by
  have hcompletes : Completes who (fun out _ => (∃ store root, out = .done (store, size, root) ∧
      Found w.fs.view dir store size root ∧ store.leaves.length = n) ∨ out = .panicked) (LogStore.read_log dir) w := by
    refine read_log_solo (fun store size' root hfound => .inl ?_) (fun hnone => absurd h (hnone rfl n size))
      fun _ _ _ _ => .inr rfl
    obtain ⟨hlength, rfl⟩ := hfound.parses.unique h
    exact ⟨store, root, rfl, hfound, hlength⟩
  obtain ⟨choices, _, out, hout, ⟨store, root, rfl, hfound⟩ | rfl⟩ := hcompletes.exists_run
  · exact ⟨choices, .inl ⟨store, root, hout, hfound⟩⟩
  · exact ⟨choices, .inr hout⟩

end Runs

variable [CtMerkle]

/-- In every run of `open` from `w` the integers stay within their types: it returns, whether
the build checks overflow or not; the sizes compared are exact; and the counter over the sorted
indices of the leaf files is. -/
structure InRange (who : Who) (dir : Path) (w : World Who Event) : Prop where
  returns : ∀ [BuildProfile] choices, (run who (LogStore.openLog dir) choices w).outcome ≠ some .panicked
  sizes : ∀ choices store size root, (run who (LogStore.read_log dir) choices w).outcome = some (.done (store, size, root)) →
    store.tree.len.toNat = store.leaves.length ∧ (Pinned store.leaves size root ∨ (size + 1).toNat = size.toNat + 1)
  counter : ∀ origin size root names (found : List UInt64), Configured w.fs.view dir origin → StatePins w.fs.view dir size root →
    w.fs.find (leaves_dir dir) = some .directory → names.Perm (w.fs.children (leaves_dir dir)) →
    visible names = found.map leaf_entry → (∀ index ∈ found, (w.fs.file (leaf_path dir index)).isSome) →
    CounterFits 0 (found.insertionSort (· ≤ ·))

omit [SerdeJson LogConfig] [SerdeJson LogState] [Base64] [RustFmt] [CtMerkle] in
/-- Distinct leaf names in order have ascending indices. -/
theorem pairwise_lt_of_names {names : List Name} {found : List UInt64} (hnames : names.Nodup)
    (hfound : visible names = found.map leaf_entry) : (found.insertionSort (· ≤ ·)).Pairwise (· < ·) := by
  have hnodup : found.Nodup := by
    refine List.Nodup.of_map leaf_entry ?_
    rw [← hfound]
    exact hnames.filter _
  have hsorted : (found.insertionSort (· ≤ ·)).Nodup := (List.perm_insertionSort (· ≤ ·) found).nodup_iff.mpr hnodup
  refine ((List.pairwise_insertionSort (· ≤ ·) found).and hsorted).imp fun {a b} h => ?_
  rw [UInt64.lt_iff_toNat_lt]
  exact lt_of_le_of_ne (UInt64.le_iff_toNat_le.mp h.1) fun heq => h.2 (UInt64.toNat_inj.mp heq)

/-- Opening stays in range exactly where the pinned size is below `u64::MAX` and the leaves fit
their vector, if the directory parses at all. -/
theorem inRange_iff (who : Who) (dir : Path) (w : World Who Event) :
    InRange who dir w ↔ ∀ n size, Parses w.fs.view dir n size → n ≤ MAX_LEAVES ∧ size.toNat + 1 < 2 ^ 64 := by
  constructor
  · intro h n size hparses
    have hreturns := @InRange.returns _ _ _ _ _ _ _ _ _ _ h ⟨true⟩
    obtain ⟨choices, ⟨store, root, hread, hfound, rfl⟩ | hread⟩ := exists_read_log who hparses
    · refine ⟨hfound.leaves.room, ?_⟩
      by_contra hlarge
      have hmax : size.toNat + 1 = 2 ^ 64 := by
        have hlt := size.toNat_lt
        omega
      have hpanic := @check_against_state_max Who Event _ _ _ _ ⟨true⟩ store size root hfound.leaves.room hmax rfl
      refine hreturns choices ?_
      rw [@LogStore.openLog_eq _ _ _ _ _ _ _ ⟨true⟩ dir, run_bind_of_done hread]
      simp only [hpanic, Prog.panic_bind, run_panic]
    · refine absurd ?_ (hreturns choices)
      rw [@LogStore.openLog_eq _ _ _ _ _ _ _ ⟨true⟩ dir, run_bind, Ending.andThen, hread]
  · intro h
    refine ⟨fun choices hpanic => ?_, fun choices store size root hread => ?_, ?_⟩
    · rw [LogStore.openLog_eq, run_bind, Ending.andThen] at hpanic
      cases hread : (run who (LogStore.read_log dir) choices w).outcome with
      | none =>
        rw [hread] at hpanic
        cases hpanic
      | some out =>
        rw [hread] at hpanic
        cases out with
        | failed e => cases hpanic
        | panicked =>
          obtain ⟨n, size, hparses, hlarge⟩ := parses_of_read_log_panicked hread
          exact absurd (h n size hparses).1 (not_le.mpr hlarge)
        | done read =>
          obtain ⟨store, size, root⟩ := read
          have hfound := found_of_read_log hread
          have hcheck : NeverPanics (store.check_against_state size root >>= fun _ => pure store :
              Process Who Event LogStore) :=
            (neverPanics_check_against_state hfound.leaves.room (h _ _ hfound.parses).2).bind fun _ => trivial
          exact hcheck.outcome_ne hpanic
    · have hfound := found_of_read_log hread
      obtain ⟨_, hsize⟩ := h _ _ hfound.parses
      exact ⟨store.toNat_tree_len hfound.leaves.room, .inr (toNat_add_one hsize)⟩
    · intro origin size root names found hconfig hstate hdirectory hnames hfound hfiles
      have hnodup := hnames.nodup_iff.mpr Fs.nodup_children
      refine (@counterFits_or dir _ _ (pairwise_lt_of_names hnodup hfound) fun _ _ => Nat.zero_le _).resolve_right ?_
      rintro ⟨hcheck, hlength⟩
      have hparses : Parses w.fs.view dir found.length size := by
        refine ⟨⟨origin, hconfig⟩, ⟨root, hstate⟩, ?_⟩
        refine numbered_of_children hdirectory hnames (perm_leaf_entries hfound hcheck) fun i hi => hfiles _ ?_
        rw [← List.mem_insertionSort (· ≤ ·), sorted_eq_range hcheck]
        exact List.mem_map_of_mem (List.mem_range.mpr hi)
      have hroom := (h _ _ hparses).1
      have hbound : MAX_LEAVES < 2 ^ 63 := by decide
      rw [List.length_insertionSort] at hlength
      change 2 ^ 64 ≤ 0 + found.length + 1 at hlength
      omega

end Overflow

section

open reference

/-- The log without leaves once its state file states the last `u64` for the size. -/
def last_size : World Unit Empty :=
  (@run (Calls Unit Empty) _ _ () (fs.write (state_path log_dir)
    (as_bytes (state_text (pinned_state ⟨CtMerkle.root [], UInt64.ofNat (2 ^ 64 - 1)⟩) ++ ['\n'])))
    [.proceed, .stores 103] initialized).state

/-- Opening that log, which lists no leaves. -/
def open_last_size : List Choice := [.proceed, .proceed, .proceed, .lists []]

/-- Over the last size a checked build panics. An unchecked one compares the rebuilt size zero with
zero, and asks for a prefix of the last size. -/
theorem not_inRange_last_size : ¬ InRange () log_dir last_size ∧
    (run () (@LogStore.openLog Unit Empty _ _ _ _ ⟨true⟩ _ log_dir) open_last_size last_size).outcome = some .panicked ∧
    (run () (LogStore.openLog log_dir) open_last_size last_size).outcome =
      some (.failed (.LogDirInvalid log_dir "prefix of size 18446744073709551615 requested but the log has 0 leaves")) := by
  have hpanic : (run () (@LogStore.openLog Unit Empty _ _ _ _ ⟨true⟩ _ log_dir) open_last_size last_size).outcome =
      some .panicked := by decide +kernel
  exact ⟨fun h => @InRange.returns _ _ _ _ _ _ _ _ _ _ h ⟨true⟩ open_last_size hpanic, hpanic, by decide +kernel⟩

end

end lys
