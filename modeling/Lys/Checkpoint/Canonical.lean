import Lys.Checkpoint.Body
import Lys.Reference

open rust

namespace lys

/-- The size lines are the decimals. -/
theorem parse_tree_size_eq_ok_iff {line : Str} {n : UInt64} :
    parse_tree_size line = .ok n ↔ line = u64_to_string n := by
  constructor
  · intro h
    simp only [parse_tree_size, bind_eq_ok_iff, reject_if_eq_ok_iff, mapError_eq_ok_iff, not_or, not_not, not_and,
      exists_const] at h
    obtain ⟨⟨hne, hdigits⟩, hzero, hparse⟩ := h
    refine eq_u64_to_string_of_parse_u64 hne hdigits (fun hhead => ?_) hparse
    have hascii : ∀ c ∈ line, c.toNat < 128 := fun c hc =>
      (toNat_lt_of_isDigit (List.all_eq_true.mp hdigits c hc)).2.trans (by decide)
    rw [length_as_bytes_ascii hascii] at hzero
    have hpos := List.length_pos_of_ne_nil hne
    by_contra hlength
    exact hzero (by omega) hhead
  · intro h
    rw [h, parse_tree_size_to_string]

section Canonical

variable [Base64] [StandardBase64]

/-- The root lines are the base64 texts of 32 bytes. -/
theorem parse_root_line_eq_ok_iff {line : Str} {root_hash : U8Array 32} :
    parse_root_line line = .ok root_hash ↔ line = Base64.encode root_hash.as_slice := by
  constructor
  · intro h
    simp only [parse_root_line, bind_eq_ok_iff, mapError_eq_ok_iff, StandardBase64.decode_eq_ok_iff, ok_or_eq_ok_iff,
      U8Array.try_from_eq_some_iff] at h
    obtain ⟨_, _, decoded, hline, hdecoded⟩ := h
    rw [hline, hdecoded, StandardBase64.encode_eq]
  · intro h
    rw [h, parse_root_line_encode]

namespace CheckpointBody

/-- The lines that parse to a body: its own three, then non-empty ones. -/
theorem parse_lines_eq_ok_iff {lines : List Str} {body : CheckpointBody} :
    parse_lines lines = .ok body ↔ ∃ extensions, [] ∉ extensions ∧ lines = body.origin ::
      u64_to_string body.tree_size :: Base64.encode body.root_hash.as_slice :: extensions := by
  constructor
  · intro h
    simp only [parse_lines, bind_eq_ok_iff, reject_if_eq_ok_iff, not_lt] at h
    obtain ⟨_, hlength, _, hempty, h⟩ := h
    obtain ⟨origin, size_line, root_line, extensions, rfl⟩ :
        ∃ origin size_line root_line extensions, lines = origin :: size_line :: root_line :: extensions := by
      rcases lines with _ | ⟨origin, _ | ⟨size_line, _ | ⟨root_line, extensions⟩⟩⟩
      iterate 3 simp at hlength
      exact ⟨_, _, _, _, rfl⟩
    simp only [List.getD_cons_zero, List.getD_cons_succ] at h
    split at h
    next => cases h
    next hvalid =>
      simp only [bind_eq_ok_iff, parse_tree_size_eq_ok_iff, parse_root_line_eq_ok_iff, pure_eq_ok_iff] at h
      obtain ⟨tree_size, hsize, root_hash, hroot, hbody⟩ := h
      subst hbody hsize hroot
      refine ⟨extensions, fun hmem => hempty ?_, rfl⟩
      simp [hmem]
  · intro h
    obtain ⟨extensions, hempty, rfl⟩ := h
    have hbody := parse_lines_encode body
    simp only [parse_lines, bind_eq_ok_iff, reject_if_eq_ok_iff] at hbody ⊢
    obtain ⟨_, _, _, hown, hparse⟩ := hbody
    refine ⟨(), by simp, (), fun hmem => hown ?_, hparse⟩
    simpa [hempty] using hmem

/-- The texts that parse to a body: its encoding, then non-empty extension lines. -/
theorem parse_eq_ok_iff {text : Str} {body : CheckpointBody} :
    parse text = .ok body ↔ ∃ extensions, (∀ line ∈ extensions, line ≠ [] ∧ '\n' ∉ line) ∧
      text = body.encode ++ join_lines '\n' extensions := by
  have hencode : ∀ extensions, body.encode ++ join_lines '\n' extensions = join_lines '\n' (body.origin ::
      u64_to_string body.tree_size :: Base64.encode body.root_hash.as_slice :: extensions) := by
    intro extensions
    rw [encode_eq_join_lines]
    simp
  simp only [parse, bind_eq_ok_iff, reject_if_eq_ok_iff, ne_eq, not_not, parse_lines_eq_ok_iff]
  constructor
  · rintro ⟨_, hend, extensions, hempty, hlines⟩
    refine ⟨extensions, fun line hline => ⟨fun h => hempty (h ▸ hline), ?_⟩, ?_⟩
    · have hmem : line ∈ split_lines '\n' text := by
        rw [hlines]
        simp [hline]
      exact not_mem_of_mem_split_lines hmem
    · rw [hencode, ← hlines, join_lines_split_lines hend]
  · rintro ⟨extensions, hextensions, rfl⟩
    rw [hencode]
    refine ⟨(), getLast?_join_lines (by simp), extensions, fun h => (hextensions [] h).1 rfl, ?_⟩
    refine split_lines_join_lines (by simp) ?_
    simp only [List.mem_cons, forall_eq_or_imp]
    exact ⟨newline_not_mem_note_name body.origin_valid, newline_not_mem_u64_to_string, newline_not_mem_encode,
      fun line hline => (hextensions line hline).2⟩

/-- The first three lines of an accepted text are the encoding of its body. -/
theorem first_lines_of_parse_eq_ok {text : Str} {body : CheckpointBody} (h : parse text = .ok body) :
    body.encode = join_lines '\n' ((split_lines '\n' text).take 3) ∧ 3 ≤ (split_lines '\n' text).length ∧
      ((split_lines '\n' text).length = 3 → body.encode = text) ∧ text.getLast? = some '\n' ∧
      [] ∉ split_lines '\n' text := by
  simp only [parse, bind_eq_ok_iff, reject_if_eq_ok_iff, ne_eq, not_not] at h
  obtain ⟨_, hend, hparse⟩ := h
  obtain ⟨extensions, _, hlines⟩ := parse_lines_eq_ok_iff.mp hparse
  have hfirst : body.encode = join_lines '\n' ((split_lines '\n' text).take 3) := by
    rw [encode_eq_join_lines, hlines]
    rfl
  refine ⟨hfirst, by simp [hlines], fun hthree => ?_, hend, ?_⟩
  · rw [hfirst, ← hthree, List.take_length, join_lines_split_lines hend]
  · simp only [parse_lines, bind_eq_ok_iff, reject_if_eq_ok_iff] at hparse
    exact hparse.choose_spec.2.choose_spec.1

end CheckpointBody

/-- Checkpoint bodies have one canonical text: every body is parsed from its encoding, the
accepted texts are the encodings followed by non-empty extension lines, and two texts of one body
agree on their first three lines. -/
theorem checkpoint_body_canonical :
    (∀ origin tree_size root_hash body, CheckpointBody.new origin tree_size root_hash = .ok body →
      CheckpointBody.parse body.encode = .ok body) ∧
    (∀ origin root body, CheckpointBody.from_root origin root = .ok body →
      CheckpointBody.parse body.encode = .ok body) ∧
    (∀ text body, CheckpointBody.parse text = .ok body →
      CheckpointBody.parse body.encode = .ok body ∧
      body.encode = join_lines '\n' ((split_lines '\n' text).take 3) ∧ 3 ≤ (split_lines '\n' text).length ∧
      ((split_lines '\n' text).length = 3 → body.encode = text) ∧ text.getLast? = some '\n' ∧
      [] ∉ split_lines '\n' text) ∧
    (∀ origin tree_size (root_hash : U8Array 32) extensions, validate_note_name origin = .ok () →
      (∀ line ∈ extensions, line ≠ [] ∧ '\n' ∉ line) →
      ∃ body, CheckpointBody.new origin tree_size root_hash = .ok body ∧
        CheckpointBody.parse (join_lines '\n' (origin :: u64_to_string tree_size ::
          Base64.encode root_hash.as_slice :: extensions)) = .ok body) ∧
    ∀ text text' body, CheckpointBody.parse text = .ok body → CheckpointBody.parse text' = .ok body →
      join_lines '\n' ((split_lines '\n' text).take 3) = join_lines '\n' ((split_lines '\n' text').take 3) := by
  refine ⟨fun _ _ _ body _ => body.parse_encode, fun _ _ body _ => body.parse_encode, ?_, ?_, ?_⟩
  · intro text body h
    exact ⟨body.parse_encode, CheckpointBody.first_lines_of_parse_eq_ok h⟩
  · intro origin tree_size root_hash extensions horigin hextensions
    refine ⟨_, CheckpointBody.new_eq_ok ⟨origin, tree_size, root_hash, horigin⟩, ?_⟩
    refine CheckpointBody.parse_eq_ok_iff.mpr ⟨extensions, hextensions, ?_⟩
    rw [CheckpointBody.encode_eq_join_lines]
    simp
  · intro text text' body h h'
    rw [← (CheckpointBody.first_lines_of_parse_eq_ok h).1, ← (CheckpointBody.first_lines_of_parse_eq_ok h').1]

end Canonical

section

open reference

/-- The checkpoint of the empty log with one extension line. -/
theorem checkpoint_body_canonical_extension_line :
    ∃ body, CheckpointBody.new "log".toList 0 (sha256 []) = .ok body ∧
      CheckpointBody.parse (join_lines '\n' ["log".toList, u64_to_string 0, Base64.encode (sha256 []).as_slice,
        "extension".toList]) = .ok body :=
  checkpoint_body_canonical.2.2.2.1 "log".toList 0 (sha256 []) ["extension".toList] (by decide) (by decide)

end

end lys
