import Lys.Log.Refinement
import Lys.Tlog.Build

open rust effect posix

namespace lys

theorem length_u64_to_string_mono {m n : UInt64} (h : m ≤ n) : (u64_to_string m).length ≤ (u64_to_string n).length := by
  have hpos : 0 < (u64_to_string n).length := List.length_pos_of_ne_nil (u64_to_string_ne_nil n)
  rw [u64_to_string, Nat.length_toDigits_le_iff (by decide) hpos]
  exact (UInt64.le_iff_toNat_le.mp h).trans_lt ((Nat.length_toDigits_le_iff (by decide) hpos).mp le_rfl)

/-- The length of a signed checkpoint: the origin twice, the digits of the size, and what is the same for each. -/
def checkpoint_length (origin : Str) (tree_size : UInt64) : Nat :=
  2 * (as_bytes origin).length + (u64_to_string tree_size).length + 146

section Sign

variable [Sha2] [Base64] [StandardBase64] [Ed25519Dalek]

omit [Sha2] [Ed25519Dalek] in
theorem length_as_bytes_checkpoint {body : CheckpointBody} {line : SignatureLine} (hname : line.name = body.origin)
    (hsignature : line.signature.length = 64) :
    (as_bytes (note_text body.encode [line])).length = checkpoint_length body.origin body.tree_size := by
  have hdigits : (as_bytes (u64_to_string body.tree_size)).length = (u64_to_string body.tree_size).length :=
    length_as_bytes_ascii fun c hc => (toNat_lt_of_isDigit (isDigit_of_mem_u64_to_string hc)).2.trans (by decide)
  have hprefix : (as_bytes SIG_PREFIX).length = 4 := rfl
  have hnewline : (String.utf8EncodeChar '\n').length = 1 := rfl
  have hspace : (String.utf8EncodeChar ' ').length = 1 := rfl
  simp only [note_text, CheckpointBody.encode, SignatureLine.to_text, List.map_cons, List.map_nil, join_lines_cons,
    join_lines_nil, hname, as_bytes_append, as_bytes_cons, as_bytes_nil, List.length_append, List.length_nil,
    hdigits, hprefix, hnewline, hspace, length_as_bytes_encode, U8Array.length_eq, hsignature, checkpoint_length]
  omega

omit [Sha2] [Ed25519Dalek] in
/-- A checkpoint body ends its only blank-line-free text with a newline. -/
theorem CheckpointBody.encode_blank_free (body : CheckpointBody) :
    body.encode.getLast? = some '\n' ∧ ¬ ['\n', '\n'] <:+: body.encode := by
  have hlines := body.encode_lines
  refine ⟨by rw [encode, List.getLast?_concat], fun hblank => ?_⟩
  rw [encode_eq_join_lines] at hblank
  exact not_infix_join_lines (fun hempty => (hlines _ hempty).1 rfl) (fun line hline => (hlines line hline).2)
    (hblank.trans (List.suffix_cons ..).isInfix)

omit [Sha2] [Ed25519Dalek] in
theorem CheckpointBody.encode_control_free_iff (body : CheckpointBody) :
    (∀ c ∈ body.encode, is_forbidden_control c = false) ↔ ∀ c ∈ body.origin, ' ' ≤ c := by
  have hdigits : ∀ c ∈ u64_to_string body.tree_size, is_forbidden_control c = false := fun c hc => by
    have hlt : ¬ c < ' ' := by
      rw [Char.lt_def, UInt32.lt_iff_toNat_lt]
      exact Nat.not_lt.mpr ((by decide : ' '.toNat ≤ 0x30).trans (toNat_lt_of_isDigit (isDigit_of_mem_u64_to_string hc)).1)
    simp [is_forbidden_control, hlt]
  have hnewline : is_forbidden_control '\n' = false := by decide
  rw [← note_name_control_free_iff body.origin_valid, encode_eq_join_lines]
  simp only [join_lines_cons, join_lines_nil, List.mem_append, List.mem_cons, List.not_mem_nil, or_false]
  constructor
  · exact fun h c hc => h c (.inl hc)
  · rintro horigin c (hc | rfl | hc | rfl | hc | rfl)
    · exact horigin c hc
    · exact hnewline
    · exact hdigits c hc
    · exact hnewline
    · exact encode_control_free c hc
    · exact hnewline

/-- Which checkpoints are signed. -/
theorem exists_sign_checkpoint_iff (body : CheckpointBody) (identity : Ed25519Identity) :
    (∃ note, sign_note body.encode body.origin identity = .ok note) ↔
      (∀ c ∈ body.origin, ' ' ≤ c) ∧ checkpoint_length body.origin body.tree_size ≤ MAX_NOTE_BYTES := by
  simp only [sign_note_eq_ok_iff, body.encode_control_free_iff, body.encode_blank_free, true_and, not_false_eq_true]
  constructor
  · rintro ⟨note, hcontrols, line, hname, _, hsignature, rfl, hsize⟩
    rw [length_as_bytes_checkpoint hname (by rw [hsignature, U8Array.length_eq])] at hsize
    exact ⟨hcontrols, hsize⟩
  · rintro ⟨hcontrols, hsize⟩
    obtain ⟨id, hid⟩ := key_id_eq_ok body.origin_valid
    have hlength : (identity.sign (as_bytes body.encode)).as_slice.length = 64 := by
      rw [U8Array.length_eq]
    let line : SignatureLine := ⟨body.origin, id, (identity.sign (as_bytes body.encode)).as_slice, body.origin_valid,
      List.ne_nil_of_length_eq_add_one hlength⟩
    refine ⟨_, hcontrols, line, rfl, hid, rfl, rfl, ?_⟩
    rw [length_as_bytes_checkpoint (show line.name = body.origin from rfl) hlength]
    exact hsize

end Sign

section Usable

variable [Sha2] [Base64] [Ed25519Dalek] [CtMerkle]

/-- The checkpoint of a log is signed and verified, and its artifacts are built. -/
structure Usable (origin : Str) (leaves : List Bytes) (identity : Ed25519Identity) : Prop where
  checkpoint : ∃ body note verifier,
    CheckpointBody.from_root origin (AppendOnlyTree.reconstruct_from_raw_leaves leaves).root = .ok body ∧
      sign_note body.encode origin identity = .ok note ∧
      NoteVerifierKey.new origin identity.public_key_bytes = .ok verifier ∧
      verify_checkpoint (as_bytes note) verifier = .ok body
  inclusion : ∀ (i : UInt64) (hi : i.toNat < leaves.length), ∃ artifact,
    build_inclusion_artifact (AppendOnlyTree.reconstruct_from_raw_leaves leaves) leaves[i.toNat] origin identity i =
      .ok artifact
  consistency : ∀ m, 1 ≤ m → m < leaves.length → ∃ artifact,
    build_consistency_artifact (AppendOnlyTree.reconstruct_from_raw_leaves (leaves.take m))
      (AppendOnlyTree.reconstruct_from_raw_leaves leaves) origin identity = .ok artifact

variable [StandardBase64] {origin : Str} {identity : Ed25519Identity}

theorem signable_iff {tree : AppendOnlyTree} (hname : validate_note_name origin = .ok ()) :
    Signable tree origin identity ↔
      (∀ c ∈ origin, ' ' ≤ c) ∧ checkpoint_length origin tree.len ≤ MAX_NOTE_BYTES := by
  rw [Signable, CheckpointBody.from_root_eq_ok hname]
  simp only [Except.ok.injEq, exists_eq_left', exists_and_left]
  exact exists_sign_checkpoint_iff ⟨origin, tree.len, tree.root.root_hash, hname⟩ identity

/-- A prefix of a signable log is signable: its size has no more digits. -/
theorem Signable.take {leaves : List Bytes} (hsign : Signable ⟨leaves⟩ origin identity)
    (hname : validate_note_name origin = .ok ()) (hsize : leaves.length < 2 ^ 64) (m : Nat) :
    Signable ⟨leaves.take m⟩ origin identity := by
  rw [signable_iff hname] at hsign ⊢
  have hle : (⟨leaves.take m⟩ : AppendOnlyTree).len ≤ (⟨leaves⟩ : AppendOnlyTree).len := by
    have htake : (leaves.take m).length ≤ leaves.length := List.length_take_le' m leaves
    rw [UInt64.le_iff_toNat_le, AppendOnlyTree.toNat_len (htake.trans_lt hsize), AppendOnlyTree.toNat_len hsize]
    exact htake
  exact ⟨hsign.1, (Nat.add_le_add_right (Nat.add_le_add_left (length_u64_to_string_mono hle) _) _).trans hsign.2⟩

variable [RustFmt] [SerdeJson LogConfig] [SerdeJson LogState] {Who Event : Type} {who : Who} {dir : Path}
  {choices : List Choice} {w : World Who Event}

omit [Sha2] [Ed25519Dalek] [StandardBase64] in
theorem name_valid_of_init (hinit : (run who (LogStore.init dir origin) choices w).outcome = some (.done ())) :
    validate_note_name origin = .ok () := by
  rw [LogStore.init] at hinit
  cases hbody : CheckpointBody.from_root origin AppendOnlyTree.new.root with
  | ok body => exact (CheckpointBody.of_from_root_eq_ok hbody).1 ▸ body.origin_valid
  | error e =>
    rw [hbody, Except.mapError, Prog.of_except_error, Prog.fail_bind, run_fail] at hinit
    cases hinit

variable [Rfc6962CtMerkle] [GenuineEd25519]

/-- Which of the origins that `init` accepts can be used for a log: those without characters below the
space, while the note that repeats the origin stays within the cap. -/
theorem usable_iff {leaves : List Bytes} (hsize : leaves.length < 2 ^ 53)
    (hinit : (run who (LogStore.init dir origin) choices w).outcome = some (.done ())) :
    Usable origin leaves identity ↔ (∀ c ∈ origin, ' ' ≤ c) ∧
      checkpoint_length origin (UInt64.ofNat leaves.length) ≤ MAX_NOTE_BYTES := by
  have hname := name_valid_of_init hinit
  have htree := @AppendOnlyTree.reconstruct_from_raw_leaves_eq
  have hlen : (⟨leaves⟩ : AppendOnlyTree).len = UInt64.ofNat leaves.length := rfl
  rw [← hlen, ← (signable_iff hname : Signable _ origin identity ↔ _)]
  constructor
  · intro h
    obtain ⟨body, note, _, hbody, hnote, _⟩ := h.checkpoint
    rw [htree] at hbody
    exact ⟨body, note, hbody, hnote⟩
  · intro hsign
    obtain ⟨verifier, hverifier, _⟩ := @NoteVerifierKey.new_eq_ok _ origin identity.public_key_bytes hname
    refine ⟨?_, fun i hi => ?_, fun m hpos hm => ?_⟩
    · obtain ⟨body, note, hbody, hnote, hverify, _⟩ := exists_checkpoint_of_signable hsign hverifier
      rw [htree]
      exact ⟨body, note, verifier, hbody, hnote, hverifier, hverify⟩
    · obtain ⟨artifact, _, hartifact, _⟩ := build_inclusion_artifact_eq_ok hsize hi hsign hverifier
      rw [htree]
      exact ⟨artifact, hartifact⟩
    · obtain ⟨artifact, _, _, hartifact, _⟩ :=
        build_consistency_artifact_eq_ok hsize hpos hm hsign (hsign.take hname (by omega) m) hverifier
      rw [htree, htree]
      exact ⟨artifact, hartifact⟩

end Usable

section

open reference

/-- `init` accepts every name. -/
theorem exists_run_init {origin : Str} (hname : validate_note_name origin = .ok ()) :
    ∃ choices, (run () (LogStore.init log_dir origin) choices empty_world).outcome = some (.done ()) := by
  obtain ⟨choices, _, _, hout, rfl, _⟩ := (init_completes hname fresh_empty_world).exists_run
  exact ⟨choices, hout⟩

def long_origin (n : Nat) : Str := List.replicate n 'a'

theorem long_origin_valid {n : Nat} (h : 0 < n) : validate_note_name (long_origin n) = .ok () := by
  refine validate_note_name_eq_ok_iff.mpr ⟨fun hnil => ?_, fun c hc => ?_, fun hplus => ?_⟩
  · exact h.ne' (List.replicate_eq_nil_iff _ |>.mp hnil)
  · rw [List.eq_of_mem_replicate hc]
    decide
  · exact absurd (List.eq_of_mem_replicate hplus) (by decide)

theorem length_as_bytes_long_origin (n : Nat) : (as_bytes (long_origin n)).length = n := by
  have hascii : ∀ c ∈ long_origin n, c.toNat < 128 := fun c hc => by
    rw [List.eq_of_mem_replicate hc]
    decide
  rw [length_as_bytes_ascii hascii, long_origin, List.length_replicate]

/-- `init` accepts an origin of a control character and one of 600000 bytes, and no checkpoint can be
signed for either. -/
theorem usable_iff_control_and_long_origin :
    (∃ choices, (run () (LogStore.init log_dir ['\x01']) choices empty_world).outcome = some (.done ())) ∧
      ¬ Usable ['\x01'] [[0x78]] zero_identity ∧
    (∃ choices, (run () (LogStore.init log_dir (long_origin 600000)) choices empty_world).outcome = some (.done ())) ∧
      ¬ Usable (long_origin 600000) [[0x78]] zero_identity := by
  obtain ⟨choices, hinit⟩ := exists_run_init (show validate_note_name ['\x01'] = .ok () by decide)
  obtain ⟨choices', hinit'⟩ := exists_run_init (long_origin_valid (show 0 < 600000 by decide))
  refine ⟨⟨choices, hinit⟩, fun husable => ?_, ⟨choices', hinit'⟩, fun husable => ?_⟩
  · have hspace := ((usable_iff (by decide) hinit).mp husable).1 '\x01' List.mem_cons_self
    revert hspace
    decide
  · have hsize := ((usable_iff (by decide) hinit').mp husable).2
    rw [checkpoint_length, length_as_bytes_long_origin, MAX_NOTE_BYTES] at hsize
    omega

end

end lys
