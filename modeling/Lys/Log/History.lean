import Lys.Log.Sparing
import Lys.Posix.Fresh

open rust effect posix Fs

namespace lys

section History

variable [Ed25519Dalek] [Sha2] [Base64] [CtMerkle] [SerdeJson LogConfig] {Who : Type} {who other : Who} {dir : Path}
  {base : Path → Option Bytes} {final : Path → Bytes → Prop} {w w' : World Who LogEvent} {store : LogStore}

section Told

/-- `log.json` gives an origin, as it was at the start. -/
def OriginOf (base : Path → Option Bytes) (dir : Path) (origin : Str) : Prop :=
  ∃ bytes, base (config_path dir) = some bytes ∧
    SerdeJson.from_slice bytes = .ok ({ format := LOG_DIR_FORMAT, origin } : LogConfig)

/-- Leaves that their files hold to the end. -/
structure Published (final : Path → Bytes → Prop) (dir : Path) (leaves : List Bytes) : Prop where
  room : leaves.length ≤ MAX_LEAVES
  files : ∀ i leaf, leaves[i]? = some leaf → final (leaf_path dir (UInt64.ofNat i)) leaf

omit [Ed25519Dalek] [Sha2] [Base64] [CtMerkle] [SerdeJson LogConfig] in
theorem Published.push {leaves : List Bytes} {leaf : Bytes} (h : Published final dir leaves)
    (hroom : leaves.length + 1 ≤ MAX_LEAVES) (hleaf : final (leaf_path dir (UInt64.ofNat leaves.length)) leaf) :
    Published final dir (leaves ++ [leaf]) where
  room := by simpa using hroom
  files i other hother := by
    obtain hi | hi := Nat.lt_or_ge i leaves.length
    · rw [List.getElem?_append_left hi] at hother
      exact h.files i other hother
    · obtain ⟨hlast, rfl⟩ := List.getElem?_eq_some_iff.mp hother
      rw [List.length_append, List.length_singleton] at hlast
      obtain rfl : i = leaves.length := by omega
      simpa using hleaf

/-- A leaf that follows published leaves. -/
def PublishedAt (final : Path → Bytes → Prop) (dir : Path) (index : UInt64) (leaf : Bytes) : Prop :=
  ∃ leaves, leaves.length = index.toNat ∧ Published final dir (leaves ++ [leaf])

/-- A note that was signed over the root of published leaves. -/
structure SignedOver (base : Path → Option Bytes) (final : Path → Bytes → Prop) (dir : Path)
    (identity : Ed25519Identity) (root : RootHash) (note : Str) (leaves : List Bytes) : Prop where
  published : Published final dir leaves
  root_eq : root = (⟨leaves⟩ : AppendOnlyTree).root
  signed : ∃ origin body, OriginOf base dir origin ∧ CheckpointBody.from_root origin root = .ok body ∧
    sign_note body.encode origin identity = .ok note

/-- The leaves that an event takes for granted. -/
def LogEvent.reach : LogEvent → Nat
  | .opened store => store.leaves.length
  | .appended index _ => index.toNat + 1
  | .signed _ root _ => root.num_leaves.toNat
  | _ => 0

/-- The files of the leaves that an event takes for granted are there. -/
def Reached (dir : Path) (event : LogEvent) (w : World Who LogEvent) : Prop :=
  ∀ i < event.reach, (w.fs.find (leaf_path dir (UInt64.ofNat i))).isSome

/-- What an event says, whenever it was noted. -/
def Told (base : Path → Option Bytes) (final : Path → Bytes → Prop) (dir : Path) : LogEvent → Prop
  | .opened store => OriginOf base dir store.origin ∧ Published final dir store.leaves
  | .appended index leaf => PublishedAt final dir index leaf
  | .signed identity root note => ∃ leaves, SignedOver base final dir identity root note leaves
  | _ => True

theorem Told.reach_le {event : LogEvent} (h : Told base final dir event) : event.reach ≤ MAX_LEAVES := by
  cases event with
  | opened store => exact h.2.room
  | appended index leaf =>
    obtain ⟨leaves, hlength, hpublished⟩ := h
    have hroom := hpublished.room
    rw [List.length_append, List.length_singleton, hlength] at hroom
    exact hroom
  | signed identity root note =>
    obtain ⟨leaves, hsigned⟩ := h
    rw [LogEvent.reach, hsigned.root_eq]
    exact (Nat.mod_le _ _).trans hsigned.published.room
  | _ => exact Nat.zero_le _

/-- The events of a trace are told truthfully. -/
structure Truthful (base : Path → Option Bytes) (final : Path → Bytes → Prop) (dir : Path) (w : World Who LogEvent) :
    Prop where
  one_name : OneName (LogFile dir) w.fs
  told : ∀ who event, (who, .record event) ∈ w.trace → Told base final dir event
  present : ∀ who event, (who, .record event) ∈ w.trace → Reached dir event w
  made : ∀ who index leaf, (who, .record (.appended index leaf)) ∈ w.trace → (who, .create_new (leaf_path dir index)) ∈ w.trace
  begun : ∀ who store, (who, .record (.opened store)) ∈ w.trace → (who, .record .started) ∈ w.trace
  later : ∀ who store earlier other event, (who, .record (.opened store)) ∈ w.trace → earlier <:+ w.trace →
    (who, .record .started) ∉ earlier → (other, .record event) ∈ earlier → event.reach ≤ store.leaves.length

/-- The events that can be noted once the first leaves are there. -/
structure Plain (base : Path → Option Bytes) (final : Path → Bytes → Prop) (dir : Path) (n : Nat) (event : LogEvent) :
    Prop where
  not_opened : ∀ store, event ≠ .opened store
  not_appended : ∀ index leaf, event ≠ .appended index leaf
  told : Told base final dir event
  reach_le : event.reach ≤ n

theorem plain_console {n : Nat} (line : Console) : Plain base final dir n (.console line) :=
  ⟨by rintro _ ⟨⟩, by rintro _ _ ⟨⟩, trivial, Nat.zero_le n⟩

omit [Sha2] [Base64] [CtMerkle] [SerdeJson LogConfig] in
theorem isSome_of_grows (h : Grows (LogFile dir) w w') {path : Path} (hpath : LogFile dir path)
    (hsome : (w.fs.find path).isSome) : (w'.fs.find path).isSome := by
  obtain ⟨node, hnode⟩ := Option.isSome_iff_exists.mp hsome
  rw [h.find path node hpath hnode]
  rfl

omit [Sha2] [Base64] [CtMerkle] [SerdeJson LogConfig] in
theorem Reached.grow {event : LogEvent} (h : Reached dir event w) (hw : Grows (LogFile dir) w w') : Reached dir event w' :=
  fun i hi => isSome_of_grows hw logFile_leaf_path (h i hi)

/-- A trace that grows by what is no opening of a handle stays truthful. -/
theorem Truthful.grow {op : Op LogEvent} (h : Truthful base final dir w) (hone : OneName (LogFile dir) w'.fs)
    (hgrows : Grows (LogFile dir) w w') (htrace : w'.trace = w.trace ∨ w'.trace = (who, op) :: w.trace)
    (htold : ∀ event, op = .record event → Told base final dir event ∧ Reached dir event w)
    (hopened : ∀ store, op ≠ .record (.opened store))
    (happended : ∀ index leaf, op = .record (.appended index leaf) → (who, .create_new (leaf_path dir index)) ∈ w.trace) :
    Truthful base final dir w' := by
  have hnew : ∀ other event, (other, .record event) ∈ w'.trace →
      (other, .record event) ∈ w.trace ∨ other = who ∧ op = .record event := by
    intro other event hmem
    obtain hsame | hcons := htrace
    · exact .inl (hsame ▸ hmem)
    · rw [hcons] at hmem
      obtain heq | hmem := List.mem_cons.mp hmem
      · exact .inr ⟨(Prod.mk.inj heq).1, (Prod.mk.inj heq).2.symm⟩
      · exact .inl hmem
  have hold : ∀ {other store}, (other, .record (.opened store)) ∈ w'.trace → (other, .record (.opened store)) ∈ w.trace :=
    fun hmem => (hnew _ _ hmem).resolve_right fun hop => hopened _ hop.2
  refine ⟨hone, fun other event hmem => ?_, fun other event hmem => ?_, fun other index leaf hmem => ?_,
    fun other store hmem => ?_, fun other store earlier other' event hmem hearlier hstarted hmem' => ?_⟩
  · obtain hmem | ⟨_, hop⟩ := hnew other event hmem
    · exact h.told other event hmem
    · exact (htold event hop).1
  · obtain hmem | ⟨_, hop⟩ := hnew other event hmem
    · exact (h.present other event hmem).grow hgrows
    · exact (htold event hop).2.grow hgrows
  · obtain hmem | ⟨rfl, hop⟩ := hnew _ _ hmem
    · exact hgrows.trace.mem (h.made other index leaf hmem)
    · exact hgrows.trace.mem (happended index leaf hop)
  · exact hgrows.trace.mem (h.begun other store (hold hmem))
  · -- the whole trace has the start of whoever opened the handle
    have hbefore : earlier <:+ w.trace := by
      obtain hsame | hcons := htrace
      · exact hsame ▸ hearlier
      · rw [hcons] at hearlier
        refine (List.suffix_cons_iff.mp hearlier).resolve_left ?_
        rintro rfl
        exact hstarted (List.mem_cons_of_mem _ (h.begun other store (hold hmem)))
    exact h.later other store earlier other' event (hold hmem) hbefore hstarted hmem'

/-- The invariant of the commands. -/
theorem Truthful.kept {R : LogEvent → Prop} {n : Nat} {held : Option Nat} {op : Op LogEvent} {r : op.Reply}
    (hR : ∀ event, R event → Plain base final dir n event)
    (hpresent : ∀ i < n, (w.fs.find (leaf_path dir (UInt64.ofNat i))).isSome) (hop : Op.Spares (LogFile dir) R held op)
    (hkept : Kept (LogFile dir) who held op r w w') (h : Truthful base final dir w) : Truthful base final dir w' := by
  refine h.grow hkept.one_name hkept.grows hkept.trace ?_ ?_ ?_
  · rintro event rfl
    have hplain := hR event hop
    exact ⟨hplain.told, fun i hi => hpresent i (hi.trans_le hplain.reach_le)⟩
  · rintro store rfl
    exact (hR _ hop).not_opened store rfl
  · rintro index leaf rfl
    exact ((hR _ hop).not_appended index leaf rfl).elim

end Told

section Opening

variable [SerdeJson LogState] [RustFmt] [BuildProfile]

/-- What a handle was opened over. -/
structure OpenedOver (base : Path → Option Bytes) (final : Path → Bytes → Prop) (dir : Path) (store : LogStore) : Prop where
  dir_eq : store.dir = dir
  origin : OriginOf base dir store.origin
  published : Published final dir store.leaves

/-- A process that has started finds the files of the start. -/
def Started (base : Path → Option Bytes) (who : Who) (dir : Path) (w : World Who LogEvent) : Prop :=
  Untouched (LogFile dir) base w ∧ (who, .record .started) ∈ w.trace

/-- The names of `leaves/` were listed after the process started. They are still there, and those
that the events before took for granted are among them. -/
structure ListedLate (who : Who) (dir : Path) (names : List Name) (w : World Who LogEvent) : Prop where
  present : ∀ name ∈ names, (w.fs.find (leaves_dir dir ++ [name])).isSome
  later : ∃ old, old <:+ w.trace ∧ (who, .record .started) ∈ old ∧ ∀ other event, (other, .record event) ∈ old →
    event.reach ≤ MAX_LEAVES ∧ ∀ i < event.reach, leaf_entry (UInt64.ofNat i) ∈ names

omit [Sha2] [Base64] [CtMerkle] [SerdeJson LogConfig] [SerdeJson LogState] [RustFmt] [BuildProfile] in
theorem ListedLate.grow {names : List Name} (h : ListedLate who dir names w) (hw : Grows (LogFile dir) w w') :
    ListedLate who dir names w' where
  present name hname := isSome_of_grows hw (.inr ⟨[name], rfl⟩) (h.present name hname)
  later := by
    obtain ⟨old, hold, hrest⟩ := h.later
    exact ⟨old, hold.trans hw.trace, hrest⟩

/-- A handle that can be noted as opened. -/
structure Ready (base : Path → Option Bytes) (final : Path → Bytes → Prop) (who : Who) (dir : Path) (store : LogStore)
    (w : World Who LogEvent) : Prop where
  opened : OpenedOver base final dir store
  present : Reached dir (.opened store) w
  later : ∃ old, old <:+ w.trace ∧ (who, .record .started) ∈ old ∧ ∀ other event, (other, .record event) ∈ old →
    event.reach ≤ store.leaves.length

omit [SerdeJson LogState] [RustFmt] [BuildProfile] [Sha2] [Base64] [CtMerkle] in
theorem Ready.grow (h : Ready base final who dir store w) (hw : Grows (LogFile dir) w w') :
    Ready base final who dir store w' where
  opened := h.opened
  present := h.present.grow hw
  later := by
    obtain ⟨old, hold, hrest⟩ := h.later
    exact ⟨old, hold.trans hw.trace, hrest⟩

omit [Sha2] [Base64] [CtMerkle] [SerdeJson LogState] [RustFmt] [BuildProfile] in
/-- A handle over listed names that are all visible leaves. -/
theorem ListedLate.ready {names : List Name} (h : ListedLate who dir names w) (hover : OpenedOver base final dir store)
    (hentries : (visible names).Perm (leaf_entries store.leaves.length)) : Ready base final who dir store w := by
  have hmem : ∀ i < store.leaves.length, leaf_entry (UInt64.ofNat i) ∈ names := fun i hi =>
    mem_of_mem_visible (hentries.mem_iff.mpr (mem_leaf_entries_iff.mpr ⟨i, hi, rfl⟩))
  refine ⟨hover, fun i hi => h.present _ (hmem i hi), ?_⟩
  obtain ⟨old, hold, hstarted, hrest⟩ := h.later
  refine ⟨old, hold, hstarted, fun other event hother => ?_⟩
  obtain ⟨hroom', hnames⟩ := hrest other event hother
  have hroom := hover.published.room
  have hmax : MAX_LEAVES < 2 ^ 64 := by decide
  by_contra hlonger
  rw [Nat.not_le] at hlonger
  have hentry : leaf_entry (UInt64.ofNat store.leaves.length) ∈ visible names :=
    List.mem_filter.mpr ⟨hnames _ hlonger, by simp [hidden_leaf_entry]⟩
  obtain ⟨i, hi, heq⟩ := mem_leaf_entries_iff.mp (hentries.mem_iff.mp hentry)
  have hsame := ofNat_inj (by omega) (by omega) (leaf_entry_injective heq)
  omega

omit [BuildProfile] in
/-- Reading a log directory among others. -/
theorem read_log_among (hconfig : ∃ bytes, base (config_path dir) = some bytes) (hw : Started base who dir w) :
    Keeps who (sharing (LogFile dir) base final (Truthful base final dir) who)
      (fun out w => ∀ store size root, out = .done (store, size, root) → Ready base final who dir store w)
      (LogStore.read_log dir) w := by
  have hstarted : ∀ w w', Started base who dir w → Undisturbed (LogFile dir) base who w w' → Started base who dir w' :=
    fun _ _ h hw => ⟨h.1.undisturbed hw, hw.trace.mem h.2⟩
  have hlisted : ∀ names w w', ListedLate who dir names w → Undisturbed (LogFile dir) base who w w' →
      ListedLate who dir names w' := fun _ _ _ h hw => h.grow hw.toGrows
  refine read_log_keeps (Looks.sharing hstarted) (Looks.sharing hstarted) (Looks.sharing hstarted)
    (fun _ => Looks.sharing hstarted) (fun _ _ _ => Looks.sharing hstarted)
    (fun _ names _ => Looks.sharing (hlisted names)) (fun _ names _ => Looks.sharing (hlisted names))
    (fun _ _ hw _ _ => hw) ?_ ?_ ?_ ?_ hw
  · intro w _ names hw hinv _ hnames
    refine ⟨fun name hname => mem_children_iff.mp (hnames.mem_iff.mp hname), w.trace, List.suffix_rfl, hw.2, ?_⟩
    intro other event hother
    refine ⟨(hinv.told other event hother).reach_le, fun i hi => hnames.mem_iff.mpr (mem_children_iff.mpr ?_)⟩
    exact hinv.present other event hother i hi
  · rintro _ _ _ _ _ _ _ _ ⟨⟩
  · rintro _ _ _ _ _ _ _ _ _ _ _ _ ⟨⟩
  · rintro w bytes names store size root hw _ hobserved _ _ _ ⟨⟩
    refine hw.ready ⟨hobserved.dir_eq, ?_, hobserved.leaves.room, fun i leaf hleaf => ?_⟩ hobserved.leaves.entries
    · obtain ⟨w₀, bytes, hw₀, _, hfile, hparse⟩ := hobserved.config
      obtain ⟨bytes', hbase⟩ := hconfig
      have hfile' := hw₀.1 _ bytes' logFile_config_path hbase
      rw [hfile] at hfile'
      obtain rfl := Option.some.inj hfile'
      exact ⟨bytes, hbase, hparse⟩
    · obtain ⟨_, _, _, _, hallowed, hfile⟩ := hobserved.leaves.files i leaf hleaf
      exact hallowed.1 _ leaf rfl logFile_leaf_path hfile

omit [SerdeJson LogState] [RustFmt] [BuildProfile] in
/-- A sparing program that notes nothing but plain events keeps the traces truthful. -/
theorem keeps_of_spares {ε α : Type} {R : LogEvent → Prop} {A : World Who LogEvent → Prop} {n : Nat}
    {x : Prog (Calls Who LogEvent) ε α} (hx : Spares (LogFile dir) R none x)
    (hR : ∀ event, R event → Plain base final dir n event)
    (hpresent : ∀ w, A w → Truthful base final dir w → ∀ i < n, (w.fs.find (leaf_path dir (UInt64.ofNat i))).isSome)
    (hA : ∀ w w', A w → Grows (LogFile dir) w w' → A w') (hw : A w) :
    Keeps who (sharing (LogFile dir) base final (Truthful base final dir) who) (fun _ => A) x w :=
  hx.keeps (fun _ h => h.one_name) (fun _ _ _ w _ hop hkept hw h => h.kept hR (hpresent w hw h) hop hkept) hA hw

omit [SerdeJson LogState] [RustFmt] [BuildProfile] in
/-- A sparing program that notes nothing. -/
theorem keeps_of_silent {ε α : Type} {A : World Who LogEvent → Prop} {x : Prog (Calls Who LogEvent) ε α}
    (hx : Spares (LogFile dir) (fun _ => False) none x) (hA : ∀ w w', A w → Grows (LogFile dir) w w' → A w') (hw : A w) :
    Keeps who (sharing (LogFile dir) base final (Truthful base final dir) who) (fun _ => A) x w :=
  keeps_of_spares hx (fun _ h => h.elim) (fun _ _ _ i hi => absurd hi (Nat.not_lt_zero i)) hA hw

/-- Opening a log directory among others. -/
theorem open_among (hconfig : ∃ bytes, base (config_path dir) = some bytes) (hw : Started base who dir w) :
    Keeps who (sharing (LogFile dir) base final (Truthful base final dir) who)
      (fun out w => ∀ store, out = .done store → Ready base final who dir store w) (LogStore.openLog dir) w := by
  rw [LogStore.openLog_eq]
  refine Keeps.bind ((read_log_among hconfig hw).mono fun out w hout => ?_)
  cases out with
  | failed e => rintro _ ⟨⟩
  | panicked => rintro _ ⟨⟩
  | done result =>
    obtain ⟨store, size, root⟩ := result
    have hready := hout store size root rfl
    obtain rfl := hready.opened.dir_eq
    have hspares : Spares (LogFile store.dir) (fun _ => False) none
        (store.check_against_state size root : Process Who LogEvent Unit) :=
      spares_check_against_state not_logFile_state_path not_logFile_tmp_path size root
    refine Keeps.bind ((keeps_of_silent hspares (fun _ _ => Ready.grow) hready).mono fun out w hw => ?_)
    cases out with
    | done u =>
      rintro _ ⟨⟩
      exact hw
    | failed e => rintro _ ⟨⟩
    | panicked => rintro _ ⟨⟩

omit [SerdeJson LogState] [RustFmt] [BuildProfile] in
/-- Noting a handle that is ready. -/
theorem Truthful.note_opened (h : Truthful base final dir w) (hready : Ready base final who dir store w) :
    Truthful base final dir ⟨w.fs, (who, .record (.opened store)) :: w.trace⟩ := by
  obtain ⟨old, hold, hstarted, hlater⟩ := hready.later
  have hmem := hold.mem hstarted
  have hnew : ∀ {other event}, (other, .record event) ∈ (who, Op.record (LogEvent.opened store)) :: w.trace →
      other = who ∧ event = .opened store ∨ (other, .record event) ∈ w.trace := by
    intro other event hmem
    refine (List.mem_cons.mp hmem).imp_left fun heq => ?_
    obtain ⟨rfl, hrecord⟩ := Prod.mk.inj heq
    exact ⟨rfl, Op.record.inj hrecord⟩
  refine ⟨h.one_name, fun other event hevent => ?_, fun other event hevent => ?_, fun other index leaf hevent => ?_,
    fun other store' hevent => ?_, fun other store' earlier other' event hevent hearlier hnot hother => ?_⟩
  · obtain ⟨_, rfl⟩ | hevent := hnew hevent
    · exact ⟨hready.opened.origin, hready.opened.published⟩
    · exact h.told other event hevent
  · obtain ⟨_, rfl⟩ | hevent := hnew hevent
    · exact hready.present
    · exact h.present other event hevent
  · obtain ⟨_, hsame⟩ | hevent := hnew hevent
    · cases hsame
    · exact List.mem_cons_of_mem _ (h.made other index leaf hevent)
  · obtain ⟨rfl, _⟩ | hevent := hnew hevent
    · exact List.mem_cons_of_mem _ hmem
    · exact List.mem_cons_of_mem _ (h.begun other store' hevent)
  · have hbegun : (other, .record .started) ∈ w.trace := by
      obtain ⟨rfl, _⟩ | hevent := hnew hevent
      · exact hmem
      · exact h.begun other store' hevent
    have hbefore : earlier <:+ w.trace := by
      refine (List.suffix_cons_iff.mp hearlier).resolve_left ?_
      rintro rfl
      exact hnot (List.mem_cons_of_mem _ hbegun)
    obtain ⟨rfl, hsame⟩ | hevent := hnew hevent
    · obtain rfl := LogEvent.opened.inj hsame
      refine hlater other' event ?_
      -- what was noted before the process started was listed
      obtain hsuffix | hsuffix := List.suffix_or_suffix_of_suffix hbefore hold
      · exact hsuffix.mem hother
      · exact absurd (hsuffix.mem hstarted) hnot
    · exact h.later other store' earlier other' event hevent hbefore hnot hother

omit [SerdeJson LogState] [RustFmt] [BuildProfile] in
/-- What a note of an event does. -/
theorem note_among {event : LogEvent} {A B : World Who LogEvent → Prop}
    (hA : ∀ w w', A w → Undisturbed (LogFile dir) base who w w' → A w')
    (hnote : ∀ w, A w → Truthful base final dir w →
      Truthful base final dir ⟨w.fs, (who, .record event) :: w.trace⟩ ∧ B ⟨w.fs, (who, .record event) :: w.trace⟩) :
    Step who (sharing (LogFile dir) base final (Truthful base final dir) who) A (.record event) fun _ => B := by
  have hspares : Op.Spares (LogFile dir) (fun _ => True) none (.record event) := trivial
  refine Step.sharing hspares (fun _ h => h.one_name) hA fun w choice r w' hw hinv _ happly _ => ?_
  obtain ⟨_, rfl⟩ := Prod.mk.inj (Option.some.inj happly)
  exact hnote w hw hinv

/-- Every command starts by opening the directory. -/
theorem start_on_among (hconfig : ∃ bytes, base (config_path dir) = some bytes) (hw : Untouched (LogFile dir) base w) :
    Keeps who (sharing (LogFile dir) base final (Truthful base final dir) who)
      (fun out w => ∀ store, out = .done store →
        OpenedOver base final dir store ∧ (who, .record (.opened store)) ∈ w.trace) (start_on dir) w := by
  have hstart : Step who (sharing (LogFile dir) base final (Truthful base final dir) who) (Untouched (LogFile dir) base)
      (.record .started) fun _ => Started base who dir := by
    refine note_among (fun _ _ h hw => h.undisturbed hw) fun w hw hinv => ⟨?_, hw, List.mem_cons_self⟩
    have htrace : (who, .record .started) :: w.trace = (who, Op.record LogEvent.started) :: w.trace := rfl
    refine hinv.grow hinv.one_name ⟨List.suffix_cons _ _, fun _ _ _ h => h⟩ (.inr htrace) ?_ ?_ ?_
    · rintro event ⟨⟩
      exact ⟨trivial, fun i hi => absurd hi (Nat.not_lt_zero i)⟩
    · rintro store ⟨⟩
    · rintro index leaf ⟨⟩
  refine Keeps.op hstart hw fun _ w hstarted _ => ?_
  change Keeps who _ _ (LogStore.openLog dir >>= fun store => note_event (.opened store) >>= fun _ => pure store) w
  refine Keeps.bind ((open_among hconfig hstarted).mono fun out w hout => ?_)
  cases out with
  | failed e => rintro _ ⟨⟩
  | panicked => rintro _ ⟨⟩
  | done store =>
    have hopened : Step who (sharing (LogFile dir) base final (Truthful base final dir) who) (Ready base final who dir store)
        (.record (.opened store)) fun _ w => OpenedOver base final dir store ∧ (who, .record (.opened store)) ∈ w.trace :=
      note_among (fun _ _ h hw => h.grow hw.toGrows) fun w hready hinv =>
        ⟨hinv.note_opened hready, hready.opened, List.mem_cons_self⟩
    refine Keeps.op hopened (hout store rfl) fun _ w hover _ => ?_
    rintro _ ⟨⟩
    exact hover

end Opening

section Commands

variable [SerdeJson LogState] [RustFmt] [BuildProfile] {leaf : Bytes}

omit [Sha2] [SerdeJson LogConfig] [BuildProfile] [CtMerkle] in
/-- Writing the state fails or opens the temporary file. -/
theorem write_state_cases (dir : Path) (root : RootHash) :
    (∃ e, (write_state dir root : Process Who LogEvent Unit) = .fail e) ∨
      ∃ next, (write_state dir root : Process Who LogEvent Unit) = .op (.create (tmp_path dir)) next := by
  rw [write_state, RootHash.to_parts]
  cases hjson : state_json_bytes (pinned_state root) "log state" with
  | error e =>
    rw [pinned_state] at hjson
    simp only [hjson]
    exact .inl ⟨e, rfl⟩
  | ok json =>
    rw [pinned_state] at hjson
    simp only [hjson]
    exact .inr ⟨_, rfl⟩

/-- The new leaf file of a handle as far as it is written. -/
structure Filled (who : Who) (store : LogStore) (inode : Nat) (leaf : Bytes) (k : Nat) (w : World Who LogEvent) : Prop where
  opened : (who, .record (.opened store)) ∈ w.trace
  created : (who, .create_new (leaf_path store.dir store.tree.len)) ∈ w.trace
  find : w.fs.find (leaf_path store.dir store.tree.len) = some (.file inode)
  content : w.fs.content inode = leaf.take k

omit [Sha2] [Base64] [SerdeJson LogConfig] [SerdeJson LogState] [RustFmt] [BuildProfile] [CtMerkle] in
theorem Filled.undisturbed {inode k : Nat} (h : Filled who store inode leaf k w)
    (hw : Undisturbed (LogFile store.dir) base who w w') : Filled who store inode leaf k w' where
  opened := hw.trace.mem h.opened
  created := hw.trace.mem h.created
  find := hw.find _ _ logFile_leaf_path h.find
  content := by
    have hfile := hw.mine _ logFile_leaf_path h.created
    rw [file_eq_some_iff.mpr ⟨inode, h.find, h.content⟩, file_eq_some_iff] at hfile
    obtain ⟨inode', hinode, hcontent⟩ := hfile
    rw [hw.find _ _ logFile_leaf_path h.find] at hinode
    obtain rfl := Node.file.inj (Option.some.inj hinode)
    exact hcontent

omit [SerdeJson LogState] [RustFmt] [BuildProfile] in
/-- Writing a new leaf file among others. -/
theorem writes_among (inode : Nat) :
    Writes who (sharing (LogFile store.dir) base final (Truthful base final store.dir) who) inode leaf
      (Filled who store inode leaf) fun _ => True where
  stable _ _ _ _ hw hrely _ := hw.undisturbed hrely
  rest _ _ _ _ _ := trivial
  progress hprogress := hprogress.elim
  stores k count w hw hinv hpos hle := by
    have hspares : Op.Spares (LogFile store.dir) (fun _ : LogEvent => False) (some inode)
        (.write inode k (leaf.drop k)) := rfl
    have happly : apply who (.write inode k (leaf.drop k)) (.stores count) w =
        some (.ok count, w.stored who inode k leaf count) := if_pos ⟨hpos, by rw [List.length_drop]; omega⟩
    exact ⟨trivial, hinv.kept (n := 0) (fun _ h => h.elim) (by simp) hspares (hspares.kept hinv.one_name happly),
      List.mem_cons_of_mem _ hw.opened, List.mem_cons_of_mem _ hw.created, hw.find, content_stored hw.find hw.content hle⟩
  fails _ _ _ _ _ _ := ⟨trivial, trivial⟩

/-- An append that succeeded made the file of its index, which holds the leaf to the end. -/
structure AppendTold (final : Path → Bytes → Prop) (who : Who) (dir : Path) (leaf : Bytes) (index : UInt64)
    (w : World Who LogEvent) : Prop where
  published : PublishedAt final dir index leaf
  created : (who, .create_new (leaf_path dir index)) ∈ w.trace
  reached : Reached dir (.appended index leaf) w

omit [Sha2] [Base64] [SerdeJson LogConfig] [SerdeJson LogState] [RustFmt] [BuildProfile] [CtMerkle] in
theorem AppendTold.grow {index : UInt64} (h : AppendTold final who dir leaf index w) (hw : Grows (LogFile dir) w w') :
    AppendTold final who dir leaf index w' :=
  ⟨h.published, hw.trace.mem h.created, h.reached.grow hw⟩

omit [SerdeJson LogState] [RustFmt] [BuildProfile] in
/-- What stands behind an opened handle is there with the new leaf. -/
theorem Filled.appendTold {inode : Nat} (h : Filled who store inode leaf leaf.length w)
    (hover : OpenedOver base final dir store) (hinv : Truthful base final dir w) (hroom : store.leaves.length + 1 ≤ MAX_LEAVES)
    (hfinal : final (leaf_path store.dir store.tree.len) leaf) : AppendTold final who store.dir leaf store.tree.len w := by
  obtain rfl := hover.dir_eq
  have hlen := LogStore.toNat_tree_len hover.published.room
  refine ⟨⟨store.leaves, hlen.symm, hover.published.push hroom ?_⟩, h.created, fun i hi => ?_⟩
  · rwa [store.tree_len] at hfinal
  · rw [LogEvent.reach, hlen] at hi
    obtain hlt | rfl := Nat.lt_succ_iff_lt_or_eq.mp hi
    · exact hinv.present who (.opened store) h.opened i hlt
    · rw [← store.tree_len, h.find]
      rfl

omit [BuildProfile] in
/-- Appending among others. -/
theorem append_among (hover : OpenedOver base final dir store) (hopened : (who, .record (.opened store)) ∈ w.trace) :
    Keeps who (sharing (LogFile dir) base final (Truthful base final dir) who)
      (fun out w => ∀ store' index hash, out = .done (store', .ok (index, hash)) → AppendTold final who dir leaf index w)
      (store.append leaf) w := by
  obtain rfl := hover.dir_eq
  have hpath : LogFile store.dir (leaf_path store.dir store.tree.len) := logFile_leaf_path
  refine append_keeps (A := fun w => (who, .record (.opened store)) ∈ w.trace) (Q := fun _ => True)
    (L := fun inode => Filled who store inode leaf) ?_ writes_among ?_ ?_ ?_ hopened
  · have hspares : Op.Spares (LogFile store.dir) (fun _ : LogEvent => False) none
        (.create_new (leaf_path store.dir store.tree.len)) := trivial
    refine Step.sharing hspares (fun _ h => h.one_name) (fun _ _ h hw => hw.trace.mem h)
      fun w choice r w' hopened hinv _ happly hkept => ?_
    refine ⟨hinv.kept (n := 0) (fun _ h => h.elim) (by simp) hspares hkept, ?_⟩
    obtain ⟨e, rfl, _⟩ | ⟨inode, fs, hcreate, rfl, rfl⟩ := World.attempt_eq_some happly
    · trivial
    · obtain ⟨_, _, rfl, hfind, hcontent, _⟩ := create_new_eq_ok hcreate
      refine ⟨List.mem_cons_of_mem _ hopened, List.mem_cons_self, by rw [hfind, if_pos rfl], ?_⟩
      rw [hcontent, content_eq_nil_of_le le_rfl, List.take_zero]
  · rintro w e _ _ _ _ _ ⟨⟩
  · rintro _ inode w _ _ _ _ _ ⟨⟩
  · intro hroom inode w hfilled hinv
    obtain ⟨e, heq⟩ | ⟨next, heq⟩ := @write_state_cases _ _ Who _ _ store.dir (store.push leaf).tree.root
    · rw [heq]
      rintro _ _ _ ⟨⟩
    · have hspares : Spares (LogFile store.dir) (fun _ => False) none
          (write_state store.dir (store.push leaf).tree.root : Process Who LogEvent Unit) :=
        spares_write_state not_logFile_state_path not_logFile_tmp_path _
      have hcontent := hfilled.content
      rw [List.take_length] at hcontent
      refine keeps_of_made hspares hpath hfilled.created (file_eq_some_iff.mpr ⟨inode, hfilled.find, hcontent⟩) fun hfinal => ?_
      have htold := hfilled.appendTold hover hinv hroom (hfinal.resolve_right fun hhead => by
        rw [heq] at hhead
        cases hhead)
      refine (keeps_of_silent hspares (fun _ _ => AppendTold.grow) htold).mono fun out w hw => ?_
      cases out with
      | done u =>
        rintro _ _ _ ⟨⟩
        exact hw
      | failed e => rintro _ _ _ ⟨⟩
      | panicked => rintro _ _ _ ⟨⟩

variable [IoErrorText] [SerdeJson InclusionProofArtifact] [SerdeJson ConsistencyProofArtifact]

omit [SerdeJson LogState] [RustFmt] [BuildProfile] [IoErrorText] [SerdeJson InclusionProofArtifact]
  [SerdeJson ConsistencyProofArtifact] in
theorem OpenedOver.admitsSigned (h : OpenedOver base final dir store) :
    AdmitsSigned (Plain base final dir store.leaves.length) store where
  console := plain_console
  signed identity leaves body note htake hbody hnote := by
    refine ⟨by rintro _ ⟨⟩, by rintro _ _ ⟨⟩, ⟨leaves, ⟨htake.length_le.trans h.published.room, fun i leaf hleaf => ?_⟩,
      rfl, store.origin, body, h.origin, hbody, hnote⟩, (Nat.mod_le _ _).trans htake.length_le⟩
    obtain ⟨rest, heq⟩ := htake
    refine h.published.files i leaf ?_
    rw [← heq, List.getElem?_append_left (List.getElem?_eq_some_iff.mp hleaf).1, hleaf]

/-- Every command among others. -/
theorem command_among {command : LogCommand} (hconfig : ∃ bytes, base (config_path dir) = some bytes)
    (hout : ∀ out ∈ command.out, ¬ LogFile dir out) (hw : Untouched (LogFile dir) base w) :
    Keeps who (sharing (LogFile dir) base final (Truthful base final dir) who) (fun _ _ => True) (command.process dir) w := by
  refine Keeps.bind ((start_on_among hconfig hw).mono fun out w hopened => ?_)
  cases out with
  | failed e => trivial
  | panicked => trivial
  | done store =>
    obtain ⟨hover, hmem⟩ := hopened store rfl
    have hpresent : ∀ w, (who, .record (.opened store)) ∈ w.trace → Truthful base final dir w →
        ∀ i < store.leaves.length, (w.fs.find (leaf_path dir (UInt64.ofNat i))).isSome :=
      fun w hmem hinv => hinv.present who (.opened store) hmem
    have hspares : ∀ {x : Process Who LogEvent Unit}, Spares (LogFile dir) (Plain base final dir store.leaves.length) none x →
        Keeps who (sharing (LogFile dir) base final (Truthful base final dir) who) (fun _ _ => True) x w :=
      fun hx => (keeps_of_spares hx (fun _ h => h) hpresent (fun _ _ h hw => hw.trace.mem h) hmem).mono fun _ _ _ => trivial
    change Keeps who _ _ (command.on store) w
    cases command with
    | append leaf =>
      refine Keeps.bind ((keeps_of_silent (spares_read_file leaf _) (fun _ _ h hw => hw.trace.mem h) hmem).mono
        fun out w hmem => ?_)
      cases out with
      | failed e => trivial
      | panicked => trivial
      | done leaf_bytes =>
        refine Keeps.bind ((append_among hover hmem).mono fun out w htold => ?_)
        cases out with
        | failed e => trivial
        | panicked => trivial
        | done result =>
          obtain ⟨store', appended⟩ := result
          cases appended with
          | error e => trivial
          | ok entry =>
            obtain ⟨index, hash⟩ := entry
            have hnote : Step who (sharing (LogFile dir) base final (Truthful base final dir) who)
                (AppendTold final who dir leaf_bytes index) (.record (.appended index leaf_bytes)) fun _ _ => True := by
              refine note_among (fun _ _ h hw => h.grow hw.toGrows) fun w htold hinv => ⟨?_, trivial⟩
              refine hinv.grow hinv.one_name ⟨List.suffix_cons _ _, fun _ _ _ h => h⟩ (.inr rfl) ?_ ?_ ?_
              · rintro event ⟨⟩
                exact ⟨htold.published, htold.reached⟩
              · rintro store ⟨⟩
              · rintro index leaf ⟨⟩
                exact htold.created
            have hconsole : ∀ line, Plain base final dir 0 (.console line) := plain_console
            refine Keeps.op hnote (htold _ _ _ rfl) fun _ w _ _ => keeps_of_spares ((spares_print_line hconsole _).bind fun _ =>
              (spares_print_line hconsole _).bind fun _ => (spares_print_line hconsole _).bind fun _ =>
              spares_print_hash hconsole _ _) (fun _ h => h) (by simp) (fun _ _ _ _ => trivial) trivial
    | checkpoint key out => exact hspares (spares_checkpoint_of hover.admitsSigned (hout out rfl) key)
    | prove_inclusion key leaf_index out =>
      exact hspares (spares_inclusion_of hover.admitsSigned (hout out rfl) key leaf_index)
    | prove_consistency key old_size out =>
      exact hspares (spares_consistency_of hover.admitsSigned (hout out rfl) key old_size)

end Commands

end History

end lys
