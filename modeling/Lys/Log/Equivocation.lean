import Lys.Checkpoint.Cosignature
import Lys.Cli.Reference
import Lys.Log.History
import Lys.Posix.Serial
import Lys.Tlog.Build
import Lys.Tlog.Reference
import Lys.Tlog.Soundness

open rust effect posix

namespace lys

section Served

variable [Ed25519Dalek] [Sha2] [Base64] [CtMerkle] [SerdeJson LogConfig]

section Sign

variable [StandardBase64]

omit [CtMerkle] [SerdeJson LogConfig] in
/-- Whoever accepts a signed checkpoint reads the body that was signed. -/
theorem eq_of_verify_checkpoint_of_sign_note {body body' : CheckpointBody} {name note : Str} {identity : Ed25519Identity}
    {verifier : NoteVerifierKey} (hsign : sign_note body.encode name identity = .ok note)
    (hverify : verify_checkpoint (as_bytes note) verifier = .ok body') : body' = body := by
  obtain ⟨⟨hend, _⟩, line, _, _, _, rfl, _⟩ := sign_note_eq_ok_iff.mp hsign
  simp only [verify_checkpoint, bind_eq_ok_iff, mapError_eq_ok_iff, reject_if_eq_ok_iff, pure_eq_ok_iff] at hverify
  obtain ⟨text, htext, read, hread, _, _, rfl⟩ := hverify
  obtain ⟨lines, hparse, _⟩ := verify_note_eq_ok_iff.mp htext
  obtain ⟨hbytes, _, hne, _, hend', _⟩ := parse_note_eq_ok_iff.mp hparse
  have hnote := as_bytes_injective hbytes
  rw [note_text, note_text] at hnote
  obtain ⟨rfl, _⟩ := blank_line_split_unique hend hend' (by simpa using line.not_mem_to_text)
    (by simpa using fun line _ => line.not_mem_to_text) (by simp) (by simpa using hne) hnote
  rw [CheckpointBody.parse_encode] at hread
  exact (Except.ok.inj hread).symm

end Sign

variable {Who : Type} {dir : Path} {base : Path → Option Bytes} {final : Path → Bytes → Prop} {w : World Who LogEvent}
  {leaves leaves' : List Bytes}

section Explain

/-- What stands at a path at the end. -/
def Final (final : Path → Bytes → Prop) : Prop := ∀ path bytes bytes', final path bytes → final path bytes' → bytes = bytes'

omit [Ed25519Dalek] [Sha2] [Base64] [CtMerkle] [SerdeJson LogConfig] in
/-- The shorter of two published lists is a prefix of the other. -/
theorem Published.prefix (hfinal : Final final) (h : Published final dir leaves) (h' : Published final dir leaves')
    (hle : leaves.length ≤ leaves'.length) : leaves <+: leaves' := by
  refine List.prefix_iff_getElem?.mpr fun i hi => ?_
  have hi' := hi.trans_le hle
  rw [List.getElem?_eq_getElem hi', hfinal _ _ _ (h.files i _ (List.getElem?_eq_getElem hi))
    (h'.files i _ (List.getElem?_eq_getElem hi'))]

omit [Ed25519Dalek] [Sha2] [Base64] [CtMerkle] [SerdeJson LogConfig] in
/-- One published list has all others as prefixes. -/
theorem exists_published (hfinal : Final final) :
    ∃ leaves, Published final dir leaves ∧ ∀ leaves', Published final dir leaves' → leaves' <+: leaves := by
  classical
  have hnil : ∃ leaves, Published final dir leaves ∧ leaves.length = 0 :=
    ⟨[], ⟨Nat.zero_le _, fun i leaf hleaf => by cases hleaf⟩, rfl⟩
  obtain ⟨leaves, h, hlength⟩ := Nat.findGreatest_spec
    (P := fun n => ∃ leaves, Published final dir leaves ∧ leaves.length = n) (Nat.zero_le MAX_LEAVES) hnil
  refine ⟨leaves, h, fun leaves' h' => h'.prefix hfinal h ?_⟩
  rw [hlength]
  exact Nat.le_findGreatest h'.room ⟨leaves', h', rfl⟩

/-- One list of leaves that everything in a trace agrees with. -/
structure Explains (base : Path → Option Bytes) (dir : Path) (leaves : List Bytes) (w : World Who LogEvent) : Prop where
  room : leaves.length ≤ MAX_LEAVES
  opened : ∀ who store, (who, .record (.opened store)) ∈ w.trace →
    OriginOf base dir store.origin ∧ store.leaves <+: leaves
  appended : ∀ who index leaf, (who, .record (.appended index leaf)) ∈ w.trace → leaves[index.toNat]? = some leaf
  signed : ∀ who identity root note, (who, .record (.signed identity root note)) ∈ w.trace →
    ∃ origin body k, k ≤ leaves.length ∧ root = (⟨leaves.take k⟩ : AppendOnlyTree).root ∧ OriginOf base dir origin ∧
      CheckpointBody.from_root origin root = .ok body ∧ sign_note body.encode origin identity = .ok note

/-- A truthful trace is explained by the longest list that its files publish. -/
theorem Truthful.exists_explains (hfinal : Final final) (h : Truthful base final dir w) :
    ∃ leaves, Explains base dir leaves w := by
  obtain ⟨leaves, hpublished, hlongest⟩ : ∃ leaves, Published final dir leaves ∧ _ := exists_published hfinal
  refine ⟨leaves, hpublished.room, fun who store hmem => ?_, fun who index leaf hmem => ?_,
    fun who identity root note hmem => ?_⟩
  · obtain ⟨horigin, hstore⟩ := h.told who _ hmem
    exact ⟨horigin, hlongest _ hstore⟩
  · obtain ⟨before, hlength, hleaf⟩ := h.told who _ hmem
    obtain ⟨rest, rfl⟩ := hlongest _ hleaf
    simp [← hlength]
  · obtain ⟨signed, hsigned, rfl, origin, body, horigin, hbody, hnote⟩ := h.told who _ hmem
    have hprefix := hlongest _ hsigned
    rw [List.prefix_iff_eq_take.mp hprefix] at hbody ⊢
    exact ⟨origin, body, _, hprefix.length_le, rfl, horigin, hbody, hnote⟩

variable [StandardBase64] [Rfc6962CtMerkle]

omit [StandardBase64] [Rfc6962CtMerkle] in
/-- The handle that a later command opens is a prefix of the list that covers what happened before. -/
theorem Explains.take {who : Who} {store : LogStore} {n : Nat} (h : Explains base dir leaves w)
    (hopened : (who, .record (.opened store)) ∈ w.trace) (hn : n ≤ store.leaves.length) :
    leaves.take n = store.leaves.take n := by
  obtain ⟨_, rest, rfl⟩ := h.opened who store hopened
  exact List.take_append_of_le_length hn

/-- What the body of a signed checkpoint says about the leaves. -/
theorem Explains.checkpoint {who : Who} {identity : Ed25519Identity} {root : RootHash} {note : Str}
    {verifier : NoteVerifierKey} {body : CheckpointBody} (h : Explains base dir leaves w)
    (hmem : (who, .record (.signed identity root note)) ∈ w.trace)
    (hverify : verify_checkpoint (as_bytes note) verifier = .ok body) :
    OriginOf base dir body.origin ∧ body.tree_size = root.num_leaves ∧ body.tree_size.toNat ≤ leaves.length ∧
      body.root_hash = rfc6962.mth sha256_hasher (leaves.take body.tree_size.toNat) := by
  obtain ⟨origin, body', k, hk, rfl, horigin, hsigned, hnote⟩ := h.signed who identity root note hmem
  obtain rfl := eq_of_verify_checkpoint_of_sign_note hnote hverify
  obtain ⟨rfl, hroot⟩ := CheckpointBody.of_from_root_eq_ok hsigned
  have htree_size : body.tree_size = (⟨leaves.take k⟩ : AppendOnlyTree).root.num_leaves := congrArg RootHash.num_leaves hroot
  have hmax : MAX_LEAVES < 2 ^ 64 := by decide
  have hroom := h.room
  have hlength : (leaves.take k).length = k := by simpa using hk
  have hsize : body.tree_size.toNat = k := by
    have hlen : (⟨leaves.take k⟩ : AppendOnlyTree).len.toNat = (leaves.take k).length :=
      AppendOnlyTree.toNat_len (by rw [hlength]; omega)
    rw [← hlength, ← hlen]
    exact congrArg (fun root : RootHash => root.num_leaves.toNat) hroot
  rw [AppendOnlyTree.root_eq] at hroot
  rw [hsize]
  exact ⟨horigin, htree_size, hk, congrArg RootHash.root_hash hroot⟩

/-- A handle has all that some events report. -/
structure Finds (store : LogStore) (earlier : List (Who × Op LogEvent)) : Prop where
  opened : ∀ other store', (other, .record (.opened store')) ∈ earlier → store'.leaves <+: store.leaves
  appended : ∀ other index leaf, (other, .record (.appended index leaf)) ∈ earlier →
    store.leaves[index.toNat]? = some leaf
  signed : ∀ other identity root note verifier body, (other, .record (.signed identity root note)) ∈ earlier →
    verify_checkpoint (as_bytes note) verifier = .ok body → body.tree_size.toNat ≤ store.leaves.length ∧
      body.root_hash = rfc6962.mth sha256_hasher (store.leaves.take body.tree_size.toNat)

/-- A command finds what was reported before it started. -/
theorem Truthful.finds {who : Who} {store : LogStore} {earlier : List (Who × Op LogEvent)}
    (h : Truthful base final dir w) (hleaves : Explains base dir leaves w) (hearlier : earlier <:+ w.trace)
    (hbefore : (who, .record .started) ∉ earlier) (hopened : (who, .record (.opened store)) ∈ w.trace) :
    Finds store earlier := by
  have hlater := fun other event => h.later who store earlier other event hopened hearlier hbefore
  obtain ⟨_, hprefix⟩ := hleaves.opened who store hopened
  refine ⟨fun other store' hmem => ?_, fun other index leaf hmem => ?_,
    fun other identity root note verifier body hmem hverify => ?_⟩
  · obtain ⟨_, hprefix'⟩ := hleaves.opened other store' (hearlier.mem hmem)
    exact List.prefix_of_prefix_length_le hprefix' hprefix (hlater other _ hmem)
  · have hlt : index.toNat < store.leaves.length := hlater other _ hmem
    obtain ⟨rest, rfl⟩ := hprefix
    rw [← hleaves.appended other index leaf (hearlier.mem hmem), List.getElem?_append_left hlt]
  · obtain ⟨_, hsame, _, hroot⟩ := hleaves.checkpoint (hearlier.mem hmem) hverify
    have hsize : body.tree_size.toNat ≤ store.leaves.length := hsame ▸ hlater other _ hmem
    exact ⟨hsize, by rw [hroot, hleaves.take hopened hsize]⟩

end Explain

section Clients

variable [StandardBase64] [Rfc6962CtMerkle] {verifier : NoteVerifierKey} {body body_1 body_2 : CheckpointBody}
  {note note_1 note_2 : Str}

omit [SerdeJson LogConfig] in
/-- Accepted checkpoints over prefixes of one list are linked. -/
theorem exists_consistency_hashes (hverify_1 : verify_checkpoint (as_bytes note_1) verifier = .ok body_1)
    (hverify_2 : verify_checkpoint (as_bytes note_2) verifier = .ok body_2) (hsize : body_2.tree_size.toNat ≤ leaves.length)
    (hroot_1 : body_1.root_hash = rfc6962.mth sha256_hasher (leaves.take body_1.tree_size.toNat))
    (hroot_2 : body_2.root_hash = rfc6962.mth sha256_hasher (leaves.take body_2.tree_size.toNat))
    (hzero : body_1.tree_size ≠ 0) (hlt : body_1.tree_size < body_2.tree_size)
    (hmax : body_2.tree_size < MAX_JSON_TREE_SIZE) :
    ∃ hashes, verify_consistency_artifact
      { format := CONSISTENCY_PROOF_FORMAT, tree_size_1 := body_1.tree_size, tree_size_2 := body_2.tree_size, hashes,
        checkpoint_1 := note_1, checkpoint_2 := note_2 } verifier = .ok (body_1, body_2) := by
  have hpos : 1 ≤ body_1.tree_size.toNat := Nat.one_le_iff_ne_zero.mpr fun h => hzero (UInt64.toNat_inj.mp h)
  have hlt' := UInt64.lt_iff_toNat_lt.mp hlt
  have hmax' := toNat_lt_of_lt_max hmax
  have hlength : (leaves.take body_2.tree_size.toNat).length = body_2.tree_size.toNat := by simpa using hsize
  have htake : (leaves.take body_2.tree_size.toNat).take body_1.tree_size.toNat = leaves.take body_1.tree_size.toNat := by
    rw [List.take_take, Nat.min_eq_left hlt'.le]
  have hnodes := @rfc6962.length_subproof_le _ _ sha256_hasher (leaves.take body_2.tree_size.toNat)
    body_1.tree_size.toNat 53 true (by omega)
  have hproof := rfc6962.verify_proof_proof (H := sha256_hasher) hpos (hlength.symm ▸ hlt')
  rw [htake, ← hroot_1, ← hroot_2, hlength] at hproof
  refine ⟨encode_hashes _, verify_consistency_artifact_eq_ok_iff.mpr ⟨rfl, ⟨hzero, hlt, hmax⟩, ?_, hverify_1,
    hverify_2, ⟨rfl, rfl⟩, _, rfl, hproof⟩⟩
  simp only [encode_hashes, List.length_map, MAX_CONSISTENCY_HASHES, rfc6962.proof]
  omega

omit [SerdeJson LogConfig] in
/-- A leaf of a list is proven under every accepted checkpoint over a prefix of it. -/
theorem exists_inclusion_hashes {i : UInt64} {leaf : Bytes}
    (hverify : verify_checkpoint (as_bytes note) verifier = .ok body) (hsize : body.tree_size.toNat ≤ leaves.length)
    (hroot : body.root_hash = rfc6962.mth sha256_hasher (leaves.take body.tree_size.toNat))
    (hleaf : leaves[i.toNat]? = some leaf) (hi : i < body.tree_size) (hmax : body.tree_size < MAX_JSON_TREE_SIZE) :
    ∃ hashes, verify_inclusion_artifact
      { format := INCLUSION_PROOF_FORMAT, tree_size := body.tree_size, leaf_index := i, hashes, checkpoint := note }
      leaf verifier = .ok body := by
  have hi' := UInt64.lt_iff_toNat_lt.mp hi
  have hmax' := toNat_lt_of_lt_max hmax
  have hlength : (leaves.take body.tree_size.toNat).length = body.tree_size.toNat := by simpa using hsize
  have hnodes := rfc6962.length_path_le (H := sha256_hasher) (i := i.toNat)
    (show (leaves.take body.tree_size.toNat).length ≤ 2 ^ 53 by omega)
  have hpath := rfc6962.verify_path_path (H := sha256_hasher) (hlength.symm ▸ hi')
  obtain ⟨_, hget⟩ := List.getElem?_eq_some_iff.mp hleaf
  rw [List.getElem_take, hget, ← hroot, hlength] at hpath
  refine ⟨encode_hashes _, verify_inclusion_artifact_eq_ok_iff.mpr ⟨rfl, hmax, hi, ?_, hverify, rfl, _, rfl, hpath⟩⟩
  simp only [encode_hashes, List.length_map, MAX_INCLUSION_HASHES]
  omega

end Clients

section Serving

variable [SerdeJson LogState] [RustFmt] [BuildProfile] [IoErrorText] [SerdeJson InclusionProofArtifact]
  [SerdeJson ConsistencyProofArtifact] {sys last : System (Calls Who LogEvent) CliError Unit}

/-- Commands that have not started, on a log directory that is there. None is told to write over
the files of the log. -/
structure Serving (dir : Path) (sys : System (Calls Who LogEvent) CliError Unit) : Prop where
  config : (sys.state.fs.file (config_path dir)).isSome
  one_name : OneName (LogFile dir) sys.state.fs
  trace : sys.state.trace = []
  idle : ∀ who, sys.status who = .idle
  procs : ∀ who, ∃ command : LogCommand, sys.procs who = command.process dir ∧ ∀ out ∈ command.out, ¬ LogFile dir out

theorem Serving.unstarted (h : Serving dir sys) : Unstarted (LogFile dir) (fun _ => True) sys where
  one_name := h.one_name
  trace := h.trace
  idle := h.idle
  spares who := by
    obtain ⟨command, hproc, hout⟩ := h.procs who
    rw [hproc]
    exact LogCommand.spares hout

omit [Sha2] [Base64] [CtMerkle] [SerdeJson LogConfig] [SerdeJson LogState] [RustFmt] [BuildProfile] [IoErrorText]
  [SerdeJson InclusionProofArtifact] [SerdeJson ConsistencyProofArtifact] in
theorem final_fixed : Final (Fixed last) := fun _ _ _ h h' => Option.some.inj (h.1.symm.trans h'.1)

variable [DecidableEq Who]

/-- Every run that reads whole files is told truthfully. -/
theorem Serving.truthful (h : Serving dir sys) (hreach : System.Reaches (ReadsWhole (LogFile dir)) sys last) :
    Truthful sys.state.fs.file (Fixed last) dir last.state := by
  have hbegin : Truthful sys.state.fs.file (Fixed last) dir sys.state := by
    refine ⟨h.one_name, ?_, ?_, ?_, ?_, ?_⟩ <;> simp [h.trace]
  refine h.unstarted.inv_of_reaches hreach hbegin fun who w hw _ => ?_
  obtain ⟨command, hproc, hout⟩ := h.procs who
  rw [hproc]
  exact command_among (Option.isSome_iff_exists.mp h.config) hout hw

theorem Serving.exists_explains (h : Serving dir sys) (hreach : System.Reaches (ReadsWhole (LogFile dir)) sys last) :
    ∃ leaves, Explains sys.state.fs.file dir leaves last.state := (h.truthful hreach).exists_explains final_fixed

omit [Ed25519Dalek] [Sha2] [Base64] [CtMerkle] [SerdeJson LogState] [RustFmt] [BuildProfile] [IoErrorText]
  [SerdeJson InclusionProofArtifact] [SerdeJson ConsistencyProofArtifact] [DecidableEq Who] in
theorem OriginOf.unique {origin origin' : Str} (h : OriginOf base dir origin) (h' : OriginOf base dir origin') :
    origin' = origin := by
  obtain ⟨bytes, hfile, hparse⟩ := h
  obtain ⟨bytes', hfile', hparse'⟩ := h'
  obtain rfl := Option.some.inj (hfile.symm.trans hfile')
  exact (LogConfig.mk.inj (Except.ok.inj (hparse'.symm.trans hparse))).2

/-- No two appends that report the same index are both reported, as long as nobody reads a file of
the log while it is being written. -/
theorem reported_append_unique {who_1 who_2 : Who} {index : UInt64} {leaf_1 leaf_2 : Bytes} (h : Serving dir sys)
    (hreach : System.Reaches (ReadsWhole (LogFile dir)) sys last)
    (h_1 : (who_1, .record (.appended index leaf_1)) ∈ last.state.trace)
    (h_2 : (who_2, .record (.appended index leaf_2)) ∈ last.state.trace) : who_2 = who_1 ∧ leaf_2 = leaf_1 := by
  obtain ⟨⟨held, howned⟩, _⟩ := h.unstarted.foreseen hreach
  have htruthful := h.truthful hreach
  refine ⟨howned.once who_1 who_2 _ logFile_leaf_path (htruthful.made _ _ _ h_1) (htruthful.made _ _ _ h_2), ?_⟩
  obtain ⟨leaves, hleaves⟩ := htruthful.exists_explains final_fixed
  have hleaf := hleaves.appended _ _ _ h_2
  rw [hleaves.appended _ _ _ h_1] at hleaf
  exact (Option.some.inj hleaf).symm

section Clients

variable [StandardBase64] [Rfc6962CtMerkle] {who who_1 who_2 : Who} {identity identity_1 identity_2 : Ed25519Identity}
  {root root_1 root_2 : RootHash} {note note_1 note_2 : Str} {verifier : NoteVerifierKey} {body body_1 body_2 : CheckpointBody}

/-- However the commands interleave and wherever they crash, as long as nobody reads a file of the
log while it is being written, one origin and one list of leaves explain the run: whatever any
command opened is a prefix of the list, whatever any command appended stands at its index, and
whatever checkpoint a client accepts is that of a prefix. -/
theorem one_history (h : Serving dir sys) (hreach : System.Reaches (ReadsWhole (LogFile dir)) sys last) :
    ∃ origin leaves,
      (∀ who store, (who, .record (.opened store)) ∈ last.state.trace → store.origin = origin ∧ store.leaves <+: leaves) ∧
      (∀ who index leaf, (who, .record (.appended index leaf)) ∈ last.state.trace → leaves[index.toNat]? = some leaf) ∧
      ∀ who identity root note verifier body, (who, .record (.signed identity root note)) ∈ last.state.trace →
        verify_checkpoint (as_bytes note) verifier = .ok body →
          body.origin = origin ∧ body.tree_size.toNat ≤ leaves.length ∧
            body.root_hash = rfc6962.mth sha256_hasher (leaves.take body.tree_size.toNat) := by
  obtain ⟨leaves, hleaves⟩ := h.exists_explains hreach
  obtain ⟨origin, horigin⟩ : ∃ origin, ∀ origin', OriginOf sys.state.fs.file dir origin' → origin' = origin := by
    by_cases hsome : ∃ origin, OriginOf sys.state.fs.file dir origin
    · obtain ⟨origin, horigin⟩ := hsome
      exact ⟨origin, fun _ => horigin.unique⟩
    · exact ⟨[], fun origin' horigin' => absurd ⟨origin', horigin'⟩ hsome⟩
  refine ⟨origin, leaves, fun who store hmem => ?_, hleaves.appended, fun who identity root note verifier body hmem hverify => ?_⟩
  · obtain ⟨hstore, hprefix⟩ := hleaves.opened who store hmem
    exact ⟨horigin _ hstore, hprefix⟩
  · obtain ⟨hbody, _, hsize, hroot⟩ := hleaves.checkpoint hmem hverify
    exact ⟨horigin _ hbody, hsize, hroot⟩

/-- Two checkpoints that a client accepts from a run that reads whole files are the same at the same
size, and at different sizes, not empty and below 2^53, some consistency artifact links them. -/
theorem served_checkpoints_linked (h : Serving dir sys) (hreach : System.Reaches (ReadsWhole (LogFile dir)) sys last)
    (h_1 : (who_1, .record (.signed identity_1 root_1 note_1)) ∈ last.state.trace)
    (h_2 : (who_2, .record (.signed identity_2 root_2 note_2)) ∈ last.state.trace)
    (hverify_1 : verify_checkpoint (as_bytes note_1) verifier = .ok body_1)
    (hverify_2 : verify_checkpoint (as_bytes note_2) verifier = .ok body_2) :
    (body_1.tree_size = body_2.tree_size → body_1 = body_2) ∧
      (body_1.tree_size ≠ 0 → body_1.tree_size < body_2.tree_size → body_2.tree_size < MAX_JSON_TREE_SIZE →
        ∃ hashes, verify_consistency_artifact
          { format := CONSISTENCY_PROOF_FORMAT, tree_size_1 := body_1.tree_size, tree_size_2 := body_2.tree_size, hashes,
            checkpoint_1 := note_1, checkpoint_2 := note_2 } verifier = .ok (body_1, body_2)) := by
  obtain ⟨leaves, hleaves⟩ := h.exists_explains hreach
  obtain ⟨horigin_1, _, hsize_1, hroot_1⟩ := hleaves.checkpoint h_1 hverify_1
  obtain ⟨horigin_2, _, hsize_2, hroot_2⟩ := hleaves.checkpoint h_2 hverify_2
  refine ⟨fun hsize => ?_, fun hzero hlt hmax => ?_⟩
  · refine CheckpointBody.ext (horigin_2.unique horigin_1) hsize ?_
    rw [hroot_1, hroot_2, hsize]
  · exact exists_consistency_hashes hverify_1 hverify_2 hsize_2 hroot_1 hroot_2 hzero hlt hmax

/-- What was reported before a command started, the command finds, where whole files are read: the
leaves of every handle opened before, every leaf whose append was reported before, and the leaves
that every checkpoint signed before is the checkpoint of. -/
theorem served_in_order {earlier : List (Who × Op LogEvent)} {store : LogStore} (h : Serving dir sys)
    (hreach : System.Reaches (ReadsWhole (LogFile dir)) sys last) (hearlier : earlier <:+ last.state.trace)
    (hbefore : (who, .record .started) ∉ earlier) (hopened : (who, .record (.opened store)) ∈ last.state.trace) :
    Finds store earlier := by
  obtain ⟨leaves, hleaves⟩ := h.exists_explains hreach
  exact (h.truthful hreach).finds hleaves hearlier hbefore hopened

/-- Where the commands run one after another, wherever they crash, every handle finds all that was
reported by the commands before. -/
theorem sequential_in_order {older : List (Who × Op LogEvent)} {store : LogStore} (h : Serving dir sys)
    (hreach : System.Reaches System.Alone sys last) (hopened : (who, .record (.opened store)) :: older <:+ last.state.trace) :
    Finds store (older.filter fun entry => entry.1 ≠ who) := by
  have hwhole := hreach.mono fun _ _ => reads_whole_of_alone (P := LogFile dir)
  have hfront := (serial_of_reaches h.trace h.idle hreach).apart _ _ hopened
  obtain ⟨leaves, hleaves⟩ := h.exists_explains hwhole
  have hfinds : ∀ entry ∈ older.filter fun entry => entry.1 ≠ who, ∃ earlier, entry ∈ earlier ∧ Finds store earlier := by
    intro entry hentry
    obtain ⟨hmem, hother⟩ := List.mem_filter.mp hentry
    obtain ⟨newer, before, rfl⟩ := List.append_of_mem hmem
    have hsuffix : entry :: before <:+ newer ++ entry :: before := List.suffix_append _ _
    refine ⟨entry :: before, List.mem_cons_self, (h.truthful hwhole).finds hleaves
      (hsuffix.trans ((List.suffix_cons _ _).trans hopened)) (fun hstarted => ?_) (hopened.mem List.mem_cons_self)⟩
    exact hfront.ne_of_suffix hsuffix (by simpa using hother) _ hstarted rfl
  refine ⟨fun other store' hmem => ?_, fun other index leaf hmem => ?_,
    fun other identity root note verifier body hmem hverify => ?_⟩
  · obtain ⟨earlier, hmem, hfinds⟩ := hfinds _ hmem
    exact hfinds.opened other store' hmem
  · obtain ⟨earlier, hmem, hfinds⟩ := hfinds _ hmem
    exact hfinds.appended other index leaf hmem
  · obtain ⟨earlier, hmem, hfinds⟩ := hfinds _ hmem
    exact hfinds.signed other identity root note verifier body hmem hverify

/-- A leaf whose append was reported stays provable, where whole files are read: some inclusion
artifact shows it to a client under every accepted checkpoint of the run, of a size below 2^53, that
covers its index. -/
theorem served_leaf_provable {index : UInt64} {leaf : Bytes} (h : Serving dir sys)
    (hreach : System.Reaches (ReadsWhole (LogFile dir)) sys last)
    (happended : (who_1, .record (.appended index leaf)) ∈ last.state.trace)
    (hsigned : (who_2, .record (.signed identity root note)) ∈ last.state.trace)
    (hverify : verify_checkpoint (as_bytes note) verifier = .ok body) (hindex : index < body.tree_size)
    (hmax : body.tree_size < MAX_JSON_TREE_SIZE) :
    ∃ hashes, verify_inclusion_artifact
      { format := INCLUSION_PROOF_FORMAT, tree_size := body.tree_size, leaf_index := index, hashes, checkpoint := note }
      leaf verifier = .ok body := by
  obtain ⟨leaves, hleaves⟩ := h.exists_explains hreach
  obtain ⟨_, _, hsize, hroot⟩ := hleaves.checkpoint hsigned hverify
  exact exists_inclusion_hashes hverify hsize hroot (hleaves.appended _ _ _ happended) hindex hmax

end Clients

end Serving

end Served

section

open reference

/-- Two appends on the log of the origin "log", each with a checkpoint behind it. -/
def four_commands : Fin 4 → LogCommand :=
  ![.append [component "first.bin"], .checkpoint key_path [component "note"], .append [component "second.bin"],
    .checkpoint key_path [component "note"]]

/-- The log before any leaf, with the files that the commands read. -/
def served_fs : Fs :=
  (run () (do
      fs.write [component "first.bin"] [0x78]
      fs.write [component "second.bin"] [0x79]
      fs.write key_path (of_hex 32 0).as_slice : Prog (Calls Unit Empty) IoError Unit)
    [.proceed, .stores 1, .proceed, .stores 1, .proceed, .stores 32] initialized).state.fs

def served : System (Calls (Fin 4) LogEvent) CliError Unit :=
  ⟨⟨served_fs, []⟩, fun who => (four_commands who).process log_dir, fun _ => .idle⟩

theorem not_logFile_note : ¬ LogFile log_dir [component "note"] := by
  rintro (heq | hprefix)
  · exact absurd heq (by decide)
  · exact absurd hprefix.length_le (by decide)

theorem serving_served : Serving log_dir served where
  config := by decide +kernel
  one_name := oneName_of_nodup (by decide +kernel)
  trace := rfl
  idle _ := rfl
  procs who := by
    refine ⟨four_commands who, rfl, fun out hout => ?_⟩
    fin_cases who
    · cases hout
    · exact Option.some.inj hout ▸ not_logFile_note
    · cases hout
    · exact Option.some.inj hout ▸ not_logFile_note

/-- The commands under their choices. -/
def first_turns : List (Fin 4 × List Choice) := [
  (0, [.proceed, .proceed, .proceed, .proceed, .lists [], .proceed, .proceed, .proceed, .stores 1, .proceed, .stores 84,
    .proceed, .proceed, .proceed, .proceed, .proceed, .proceed]),
  (1, [.proceed, .proceed, .proceed, .proceed, .lists [leaf_entry 0], .proceed, .proceed, .proceed, .proceed, .proceed,
    .proceed, .proceed, .stores 153, .proceed, .proceed, .proceed, .proceed, .proceed])]

def last_turns : List (Fin 4 × List Choice) := [
  (2, [.proceed, .proceed, .proceed, .proceed, .lists [leaf_entry 0], .proceed, .proceed, .proceed, .proceed, .proceed,
    .stores 1, .proceed, .stores 84, .proceed, .proceed, .proceed, .proceed, .proceed, .proceed]),
  (3, [.proceed, .proceed, .proceed, .proceed, .lists [leaf_entry 1, leaf_entry 0], .proceed, .proceed, .proceed, .proceed,
    .proceed, .proceed, .proceed, .proceed, .proceed, .stores 153, .proceed, .proceed, .proceed, .proceed, .proceed])]

/-- The world after the first two commands, and after all four. -/
def after_first : World (Fin 4) LogEvent := System.after served.procs first_turns served.state
def after_last : World (Fin 4) LogEvent := System.after served.procs (first_turns ++ last_turns) served.state

/-- The note that the key signs for leaves. -/
def note_of (leaves : List Bytes) : Str :=
  ((CheckpointBody.from_root "log".toList (⟨leaves⟩ : AppendOnlyTree).root).bind fun body =>
    sign_note body.encode "log".toList zero_identity).toOption.getD []

/-- The commands end, and what they report. -/
theorem reported_after_last :
    System.completes served.procs (first_turns ++ last_turns) served.state = true ∧
    ((0, .record (.appended 0 [0x78])) ∈ after_last.trace ∧
      (1, .record (.signed zero_identity (⟨[[0x78]]⟩ : AppendOnlyTree).root (note_of [[0x78]]))) ∈ after_last.trace ∧
      (3, .record (.signed zero_identity (⟨[[0x78], [0x79]]⟩ : AppendOnlyTree).root (note_of [[0x78], [0x79]]))) ∈
        after_last.trace) ∧
    (2, .record (.opened ⟨log_dir, "log".toList, [[0x78]], ⟨[[0x78]]⟩, rfl⟩)) ∈ after_last.trace ∧
      after_first.trace <:+ after_last.trace ∧ (2, .record .started) ∉ after_first.trace := by
  decide +kernel

theorem exists_after_last : ∃ last, System.Reaches System.Alone served last ∧ last.state = after_last :=
  System.exists_reaches_after (by rintro who ⟨⟩) (by decide) (fun _ _ => ⟨rfl, rfl⟩) reported_after_last.1

theorem verify_note_of {leaves : List Bytes} {verifier : NoteVerifierKey}
    (hverifier : NoteVerifierKey.new "log".toList zero_identity.public_key_bytes = .ok verifier)
    (hsign : Signable ⟨leaves⟩ "log".toList zero_identity) :
    ∃ body, verify_checkpoint (as_bytes (note_of leaves)) verifier = .ok body ∧
      body.to_root = (⟨leaves⟩ : AppendOnlyTree).root := by
  obtain ⟨body, note, hbody, hnote, hverify, _, hroot⟩ := exists_checkpoint_of_signable hsign hverifier
  have hsame : note_of leaves = note := by
    rw [note_of, hbody, Except.bind, hnote]
    rfl
  exact ⟨body, hsame ▸ hverify, hroot⟩

theorem one_history_four_commands : ∃ leaves : List Bytes, leaves[(0 : UInt64).toNat]? = some [0x78] ∧
    ∀ verifier body, verify_checkpoint (as_bytes (note_of [[0x78], [0x79]])) verifier = .ok body →
      body.root_hash = rfc6962.mth sha256_hasher (leaves.take body.tree_size.toNat) := by
  obtain ⟨last, hreach, hlast⟩ := exists_after_last
  obtain ⟨_, ⟨happended, _, hsigned⟩, _⟩ := reported_after_last
  obtain ⟨_, leaves, _, hleaves, hroots⟩ := one_history serving_served (hreach.mono fun _ _ => reads_whole_of_alone)
  rw [hlast] at hleaves hroots
  exact ⟨leaves, hleaves _ _ _ happended, fun verifier body hverify => (hroots _ _ _ _ _ _ hsigned hverify).2.2⟩

/-- Nobody else reports the first index. -/
theorem reported_append_unique_four_commands : ∃ last, System.Reaches (ReadsWhole (LogFile log_dir)) served last ∧
    (0, .record (.appended 0 [0x78])) ∈ last.state.trace ∧
    ∀ who leaf, (who, .record (.appended 0 leaf)) ∈ last.state.trace → who = 0 ∧ leaf = [0x78] := by
  obtain ⟨last, hreach, hlast⟩ := exists_after_last
  have hwhole := hreach.mono fun _ _ => reads_whole_of_alone (P := LogFile log_dir)
  have happended := reported_after_last.2.1.1
  rw [← hlast] at happended
  exact ⟨last, hwhole, happended, fun who leaf hother => reported_append_unique serving_served hwhole happended hother⟩

/-- The second append finds what the commands before it reported. -/
theorem served_in_order_four_commands : ∃ store : LogStore,
    (2, .record (.opened store)) ∈ after_last.trace ∧ Finds store after_first.trace := by
  obtain ⟨last, hreach, hlast⟩ := exists_after_last
  obtain ⟨_, _, hopened, hsuffix, hbefore⟩ := reported_after_last
  refine ⟨_, hopened, served_in_order serving_served (hreach.mono fun _ _ => reads_whole_of_alone) ?_ hbefore ?_⟩
  · rw [hlast]
    exact hsuffix
  · rw [hlast]
    exact hopened

theorem sequential_in_order_four_commands : ∃ (store : LogStore) (older : List (Fin 4 × Op LogEvent)),
    (2, .record (.opened store)) :: older <:+ after_last.trace ∧ Finds store (older.filter fun entry => entry.1 ≠ 2) := by
  obtain ⟨last, hreach, hlast⟩ := exists_after_last
  obtain ⟨_, _, hopened, _⟩ := reported_after_last
  obtain ⟨newer, older, htrace⟩ := List.append_of_mem hopened
  have hsuffix : ∀ entry, after_last.trace = newer ++ entry :: older → entry :: older <:+ last.state.trace := by
    intro entry heq
    rw [hlast, heq]
    exact List.suffix_append _ _
  have hopened := hsuffix _ htrace
  exact ⟨_, older, hlast ▸ hopened, sequential_in_order serving_served hreach hopened⟩

/-- The checkpoints of both sizes. -/
theorem served_checkpoints_linked_four_commands : ∃ verifier body_1 body_2 hashes,
    body_1.tree_size = 1 ∧ body_2.tree_size = 2 ∧ verify_consistency_artifact
      { format := CONSISTENCY_PROOF_FORMAT, tree_size_1 := body_1.tree_size, tree_size_2 := body_2.tree_size, hashes,
        checkpoint_1 := note_of [[0x78]], checkpoint_2 := note_of [[0x78], [0x79]] } verifier = .ok (body_1, body_2) := by
  obtain ⟨last, hreach, hlast⟩ := exists_after_last
  obtain ⟨_, ⟨_, hsigned_1, hsigned_2⟩, _⟩ := reported_after_last
  obtain ⟨verifier, hverifier⟩ := log_verifier
  obtain ⟨body_1, hverify_1, hroot_1⟩ := verify_note_of hverifier signable_leaves.2
  obtain ⟨body_2, hverify_2, hroot_2⟩ := verify_note_of hverifier signable_leaves.1
  have hsize_1 : body_1.tree_size = 1 := congrArg RootHash.num_leaves hroot_1
  have hsize_2 : body_2.tree_size = 2 := congrArg RootHash.num_leaves hroot_2
  rw [← hlast] at hsigned_1 hsigned_2
  obtain ⟨_, hlinked⟩ := served_checkpoints_linked serving_served (hreach.mono fun _ _ => reads_whole_of_alone) hsigned_1
    hsigned_2 hverify_1 hverify_2
  obtain ⟨hashes, hartifact⟩ := hlinked (by rw [hsize_1]; decide) (by rw [hsize_1, hsize_2]; decide)
    (by rw [hsize_2]; decide)
  exact ⟨verifier, body_1, body_2, hashes, hsize_1, hsize_2, hartifact⟩

/-- The first leaf under the later checkpoint. -/
theorem served_leaf_provable_four_commands : ∃ verifier body hashes, body.tree_size = 2 ∧ verify_inclusion_artifact
    { format := INCLUSION_PROOF_FORMAT, tree_size := body.tree_size, leaf_index := 0, hashes,
      checkpoint := note_of [[0x78], [0x79]] } [0x78] verifier = .ok body := by
  obtain ⟨last, hreach, hlast⟩ := exists_after_last
  obtain ⟨_, ⟨happended, _, hsigned⟩, _⟩ := reported_after_last
  obtain ⟨verifier, hverifier⟩ := log_verifier
  obtain ⟨body, hverify, hroot⟩ := verify_note_of hverifier signable_leaves.1
  have hsize : body.tree_size = 2 := congrArg RootHash.num_leaves hroot
  rw [← hlast] at happended hsigned
  obtain ⟨hashes, hartifact⟩ := served_leaf_provable serving_served (hreach.mono fun _ _ => reads_whole_of_alone) happended
    hsigned hverify (by rw [hsize]; decide) (by rw [hsize]; decide)
  exact ⟨verifier, body, hashes, hsize, hartifact⟩

/-- An append of two bytes, and two checkpoints. -/
def torn_commands : Fin 3 → LogCommand :=
  ![.append [component "pair.bin"], .checkpoint key_path [component "note"], .checkpoint key_path [component "note"]]

def torn : System (Calls (Fin 3) LogEvent) CliError Unit :=
  ⟨⟨(run () (fs.write [component "pair.bin"] [0x78, 0x79] : Prog (Calls Unit Empty) IoError Unit) [.proceed, .stores 2]
    ⟨served_fs, []⟩).state.fs, []⟩, fun who => (torn_commands who).process log_dir, fun _ => .idle⟩

theorem serving_torn : Serving log_dir torn where
  config := by decide +kernel
  one_name := oneName_of_nodup (by decide +kernel)
  trace := rfl
  idle _ := rfl
  procs who := by
    refine ⟨torn_commands who, rfl, fun out hout => ?_⟩
    fin_cases who
    · cases hout
    · exact Option.some.inj hout ▸ not_logFile_note
    · exact Option.some.inj hout ▸ not_logFile_note

def acts (who : Fin 3) (choices : List Choice) : List (Action (Calls (Fin 3) LogEvent)) := choices.map (.act who)

/-- The first checkpoint is made while half of the leaf is written. -/
def torn_schedule : List (Action (Calls (Fin 3) LogEvent)) :=
  acts 0 [.proceed, .proceed, .proceed, .proceed, .lists [], .proceed, .proceed, .proceed, .stores 1] ++
    acts 1 [.proceed, .proceed, .proceed, .proceed, .lists [leaf_entry 0], .proceed, .proceed, .proceed, .stores 84, .proceed,
      .proceed, .proceed, .proceed, .proceed, .proceed, .stores 153] ++
    acts 0 [.stores 1, .proceed, .stores 84, .proceed] ++
    acts 2 [.proceed, .proceed, .proceed, .proceed, .lists [leaf_entry 0], .proceed, .proceed, .proceed, .proceed, .proceed,
      .proceed, .proceed, .stores 153]

/-- Whoever reads a leaf that is being written may sign another root of the same size: the log
has nothing that keeps readers away. -/
theorem torn_read_equivocates : Serving log_dir torn ∧ ∃ last, System.Reaches (fun _ _ => True) torn last ∧
    (1, .record (.signed zero_identity (⟨[[0x78]]⟩ : AppendOnlyTree).root (note_of [[0x78]]))) ∈ last.state.trace ∧
    (2, .record (.signed zero_identity (⟨[[0x78, 0x79]]⟩ : AppendOnlyTree).root (note_of [[0x78, 0x79]]))) ∈ last.state.trace ∧
    (⟨[[0x78]]⟩ : AppendOnlyTree).root.num_leaves = (⟨[[0x78, 0x79]]⟩ : AppendOnlyTree).root.num_leaves ∧
    (⟨[[0x78]]⟩ : AppendOnlyTree).root ≠ (⟨[[0x78, 0x79]]⟩ : AppendOnlyTree).root := by
  have hsigned : (torn.exec torn_schedule).any (fun last => decide (
      (1, .record (.signed zero_identity (⟨[[0x78]]⟩ : AppendOnlyTree).root (note_of [[0x78]]))) ∈ last.state.trace ∧
      (2, .record (.signed zero_identity (⟨[[0x78, 0x79]]⟩ : AppendOnlyTree).root (note_of [[0x78, 0x79]]))) ∈
        last.state.trace)) = true := by decide +kernel
  obtain ⟨last, hlast, hboth⟩ := (Option.any_eq_true _ _).mp hsigned
  obtain ⟨hsigned_1, hsigned_2⟩ := of_decide_eq_true hboth
  exact ⟨serving_torn, last, System.reaches_of_exec hlast, hsigned_1, hsigned_2, rfl, by decide +kernel⟩

end

end lys
