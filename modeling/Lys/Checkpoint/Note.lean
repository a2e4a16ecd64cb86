import Lys.Checkpoint.Body

open rust

namespace lys

/-- Cap on the size of a note, enforced when signing and when verifying. -/
def MAX_NOTE_BYTES : Nat := 1024 * 1024

def MAX_SIGNATURE_LINES : Nat := 100

/-- The signature-line prefix: U+2014 em dash, one space. -/
def SIG_PREFIX : Str := ['\u2014', ' ']

/-- An ASCII control character other than the newline. -/
def is_forbidden_control (c : Char) : Bool := c < ' ' && c ≠ '\n'

theorem note_name_control_free_iff {name : Str} (hname : validate_note_name name = .ok ()) :
    (∀ c ∈ name, is_forbidden_control c = false) ↔ ∀ c ∈ name, ' ' ≤ c := by
  refine forall₂_congr fun c hc => ?_
  have hnewline : c ≠ '\n' := by
    rintro rfl
    exact newline_not_mem_note_name hname hc
  simp [is_forbidden_control, hnewline]

/-- A parsed candidate signature line. -/
structure SignatureLine where
  name : Str
  key_id : U8Array 4
  signature : Bytes
  name_valid : validate_note_name name = .ok ()
  signature_ne_nil : signature ≠ []

section Text

variable [Base64]

/-- The line that a signature line is parsed from. -/
def SignatureLine.to_text (line : SignatureLine) : Str :=
  SIG_PREFIX ++ (line.name ++ ' ' :: Base64.encode (line.key_id.as_slice ++ line.signature))

/-- The text of a note: body, blank line, signature lines. -/
def note_text (body : Str) (lines : List SignatureLine) : Str :=
  body ++ '\n' :: join_lines '\n' (lines.map SignatureLine.to_text)

end Text

section Sign

variable [Sha2] [Base64] [Ed25519Dalek]

/-- Signs `body` under `name` and emits the note: body, blank line, one signature line. -/
def sign_note (body name : Str) (identity : Ed25519Identity) : TrustResult Str := do
  (validate_note_name name).mapError fun e =>
    .CheckpointEncoding s!"invalid note key name: {e.to_string}"
  reject_if (body = []) (.CheckpointEncoding "note body must not be empty")
  reject_if (body.getLast? ≠ some '\n') (.CheckpointEncoding "note body must end with a newline")
  reject_if (contains ['\n', '\n'] body) (.CheckpointEncoding "note body must not contain a blank line")
  reject_if (body.any is_forbidden_control)
    (.CheckpointEncoding "note body must not contain ASCII control characters other than newline")
  let id ← (key_id name identity.public_key_bytes).mapError fun e =>
    .CheckpointEncoding s!"invalid note key name: {e.to_string}"
  let signature := identity.sign (as_bytes body)
  let blob := id.as_slice ++ signature.as_slice
  let note := body ++ ['\n'] ++ SIG_PREFIX ++ name ++ [' '] ++ Base64.encode blob ++ ['\n']
  reject_if ((as_bytes note).length > MAX_NOTE_BYTES)
    (.CheckpointEncoding
      s!"note would be {(as_bytes note).length} bytes, exceeding the {MAX_NOTE_BYTES}-byte cap")
  return note

/-- `sign_note` accepts bodies that end their only blank-line-free text with a newline and
emits the body with one genuine signature line. -/
theorem sign_note_eq_ok_iff {body name note : Str} {identity : Ed25519Identity} :
    sign_note body name identity = .ok note ↔
      (body.getLast? = some '\n' ∧ ¬ ['\n', '\n'] <:+: body ∧
        ∀ c ∈ body, is_forbidden_control c = false) ∧
      ∃ line : SignatureLine, line.name = name ∧
        key_id name identity.public_key_bytes = .ok line.key_id ∧
        line.signature = (identity.sign (as_bytes body)).as_slice ∧
        note = note_text body [line] ∧ (as_bytes note).length ≤ MAX_NOTE_BYTES := by
  have hcontrol : ¬ body.any is_forbidden_control = true ↔ ∀ c ∈ body, is_forbidden_control c = false := by
    simp
  have hblank : ¬ contains ['\n', '\n'] body = true ↔ ¬ ['\n', '\n'] <:+: body := by
    rw [Bool.not_eq_true, contains_eq_false_iff]
  simp only [sign_note, bind_eq_ok_iff, mapError_eq_ok_iff, reject_if_eq_ok_iff, pure_eq_ok_iff, ne_eq,
    Decidable.not_not, hcontrol, hblank, gt_iff_lt, not_lt]
  constructor
  · rintro ⟨_, hname, _, _, _, hend, _, hlast, _, hcontrols, id, hid, _, hsize, rfl⟩
    have hsig : (identity.sign (as_bytes body)).as_slice ≠ [] :=
      List.ne_nil_of_length_eq_add_one (identity.sign (as_bytes body)).length_eq
    refine ⟨⟨hend, hlast, hcontrols⟩, ⟨name, id, _, hname, hsig⟩, rfl, hid, rfl, ?_, hsize⟩
    simp [note_text, SignatureLine.to_text]
  · rintro ⟨⟨hend, hlast, hcontrols⟩, line, rfl, hid, hsig, rfl, hsize⟩
    have hnote : note_text body [line] = body ++ ['\n'] ++ SIG_PREFIX ++ line.name ++ [' '] ++
        Base64.encode (line.key_id.as_slice ++ (identity.sign (as_bytes body)).as_slice) ++ ['\n'] := by
      simp [note_text, SignatureLine.to_text, hsig]
    have hne : body ≠ [] := by
      rintro rfl
      cases hend
    rw [hnote] at hsize ⊢
    exact ⟨(), line.name_valid, (), hne, (), hend, (), hlast, (), hcontrols, line.key_id, hid, (), hsize, rfl⟩

end Sign

section Parse

variable [Base64]

/-- Parses one signature line: prefix, name, blob of a key ID and a non-empty signature. -/
def parse_signature_line (line : Str) : TrustResult SignatureLine := do
  let rest ← ok_or ( strip_prefix SIG_PREFIX line) .NoteVerification
  let (name, blob_b64) ← ok_or (split_once ' ' rest) .NoteVerification
  if hcheck : blob_b64 = [] ∨ (validate_note_name name).isOk = false then .error .NoteVerification
  else
    let blob ← (Base64.decode blob_b64).mapError fun _ => .NoteVerification
    if hlen : blob.length < 5 then .error .NoteVerification
    else
      have hname : validate_note_name name = .ok () := by
        simpa [isOk_unit_iff] using (not_or.mp hcheck).2
      return ⟨name, ⟨blob.take 4, by simp; omega⟩, blob.drop 4, hname, by simp; omega⟩

/-- The loop of `parse_note` over the lines of the signature block. -/
def parse_signature_lines (lines : List SignatureLine) : List Str → TrustResult (List SignatureLine)
  | [] => return lines
  | line :: rest => do
    let line ← parse_signature_line line
    reject_if ((lines ++ [line]).length > MAX_SIGNATURE_LINES) .NoteVerification
    parse_signature_lines (lines ++ [line]) rest

/-- Structural parse of a note: the body and every signature line. -/
def parse_note (note_bytes : Bytes) : TrustResult (Str × List SignatureLine) := do
  reject_if (note_bytes.length > MAX_NOTE_BYTES) .NoteVerification
  let text ← ok_or (from_utf8 note_bytes) .NoteVerification
  reject_if (text.any is_forbidden_control) .NoteVerification
  let split ← ok_or (rfind ['\n', '\n'] text) .NoteVerification
  let body := text.take (split + 1)
  let sig_block := text.drop (split + 2)
  reject_if (sig_block = [] ∨ sig_block.getLast? ≠ some '\n') .NoteVerification
  let lines ← parse_signature_lines [] (split_lines '\n' sig_block)
  return (body, lines)

variable [StandardBase64]

/-- A line parses exactly as what it is the text of. -/
theorem parse_signature_line_eq_ok_iff {line : Str} {parsed : SignatureLine} :
    parse_signature_line line = .ok parsed ↔ line = parsed.to_text := by
  simp only [parse_signature_line, bind_eq_ok_iff, ok_or_eq_ok_iff, strip_prefix_eq_some_iff]
  constructor
  · rintro ⟨rest, rfl, ⟨name, blob_b64⟩, hsplit, hparsed⟩
    obtain ⟨rfl, _⟩ := split_once_eq_some_iff.mp hsplit
    split at hparsed
    next => cases hparsed
    next =>
      simp only [bind_eq_ok_iff, mapError_eq_ok_iff, StandardBase64.decode_eq_ok_iff] at hparsed
      obtain ⟨blob, rfl, hparsed⟩ := hparsed
      split at hparsed
      next => cases hparsed
      next =>
        obtain rfl := Except.ok.inj hparsed
        rw [SignatureLine.to_text, List.take_append_drop, StandardBase64.encode_eq]
  · rintro rfl
    have hpos := List.length_pos_of_ne_nil parsed.signature_ne_nil
    have hlen : ¬ (parsed.key_id.as_slice ++ parsed.signature).length < 5 := by
      simp only [List.length_append, U8Array.length_eq]
      omega
    have hblob : Base64.encode (parsed.key_id.as_slice ++ parsed.signature) ≠ [] :=
      encode_ne_nil (by simp)
    have hcheck : ¬ (Base64.encode (parsed.key_id.as_slice ++ parsed.signature) = [] ∨
        (validate_note_name parsed.name).isOk = false) := by
      simp [hblob, parsed.name_valid, Except.isOk, Except.toBool]
    have hdecode : Base64.decode (Base64.encode (parsed.key_id.as_slice ++ parsed.signature)) =
        .ok (parsed.key_id.as_slice ++ parsed.signature) := by
      rw [StandardBase64.decode_eq_ok_iff, StandardBase64.encode_eq]
    refine ⟨_, rfl, (parsed.name, _),
      split_once_eq_some_iff.mpr ⟨rfl, space_not_mem_note_name parsed.name_valid⟩, ?_⟩
    rw [dif_neg hcheck, hdecode]
    simp only [Except.mapError, ok_bind]
    rw [dif_neg hlen]
    simp

/-- A signature line is neither empty nor cut by a newline. -/
theorem SignatureLine.not_mem_to_text (line : SignatureLine) : line.to_text ≠ [] ∧ '\n' ∉ line.to_text := by
  have hstarts : '\n' ∉ SIG_PREFIX := by decide
  constructor
  · simp [to_text, SIG_PREFIX]
  · simp [to_text, hstarts, newline_not_mem_note_name line.name_valid, newline_not_mem_encode]

/-- Within the cap, the loop parses every line and keeps their order. -/
theorem parse_signature_lines_eq_ok_iff {acc parsed : List SignatureLine} {lines : List Str}
    (hacc : acc.length ≤ MAX_SIGNATURE_LINES) :
    parse_signature_lines acc lines = .ok parsed ↔ parsed.length ≤ MAX_SIGNATURE_LINES ∧
      ∃ new, parsed = acc ++ new ∧ lines = new.map SignatureLine.to_text := by
  induction lines generalizing acc with
  | nil =>
    simp only [parse_signature_lines, pure_eq_ok_iff]
    constructor
    · rintro rfl
      exact ⟨hacc, [], by simp, rfl⟩
    · rintro ⟨_, new, rfl, hnew⟩
      simp [List.map_eq_nil_iff.mp hnew.symm]
  | cons line lines ih =>
    simp only [parse_signature_lines, bind_eq_ok_iff, reject_if_eq_ok_iff, gt_iff_lt, not_lt,
      parse_signature_line_eq_ok_iff]
    constructor
    · rintro ⟨p, rfl, _, hlen, hrest⟩
      obtain ⟨hparsed, new, rfl, rfl⟩ := (ih hlen).mp hrest
      exact ⟨hparsed, p :: new, by simp, rfl⟩
    · rintro ⟨hparsed, new, rfl, hnew⟩
      cases new with
      | nil => cases hnew
      | cons p new =>
        obtain ⟨rfl, rfl⟩ := List.cons.inj hnew
        have hlen : (acc ++ [p]).length ≤ MAX_SIGNATURE_LINES := by
          simp only [List.length_append, List.length_cons, List.length_nil] at hparsed ⊢
          omega
        exact ⟨p, rfl, (), hlen, (ih hlen).mpr ⟨hparsed, new, by simp, rfl⟩⟩

theorem encode_control_free {bytes : Bytes} : ∀ c ∈ Base64.encode bytes, is_forbidden_control c = false := by
  intro c hc
  rw [StandardBase64.encode_eq] at hc
  have hprintable := (rfc4648.isBase64Char_of_mem_encode hc).printable.1
  have hlt : ¬ c < ' ' := by
    rw [Char.lt_def, UInt32.lt_iff_toNat_lt]
    exact Nat.not_lt.mpr hprintable.le
  simp [is_forbidden_control, hlt]

/-- The control characters of a one-line note are those of its body and its name. -/
theorem note_text_control_free_iff {body : Str} {line : SignatureLine} :
    (∀ c ∈ note_text body [line], is_forbidden_control c = false) ↔
      (∀ c ∈ body, is_forbidden_control c = false) ∧ ∀ c ∈ line.name, is_forbidden_control c = false := by
  have hstarts : ∀ c ∈ SIG_PREFIX, is_forbidden_control c = false := by
    simp only [SIG_PREFIX, List.mem_cons, List.not_mem_nil, or_false, forall_eq_or_imp, forall_eq]
    exact ⟨rfl, rfl⟩
  have hnewline : is_forbidden_control '\n' = false := by decide
  have hspace : is_forbidden_control ' ' = false := by decide
  simp only [note_text, SignatureLine.to_text, List.map_cons, List.map_nil, join_lines_cons,
    join_lines_nil, List.mem_append, List.mem_cons, List.not_mem_nil, or_false]
  constructor
  · intro h
    exact ⟨fun c hc => h c (.inl hc), fun c hc => h c (.inr (.inr (.inl (.inr (.inl hc)))))⟩
  · rintro ⟨hbody, hname⟩ c (hc | rfl | (hc | hc | rfl | hc) | rfl)
    · exact hbody c hc
    · exact hnewline
    · exact hstarts c hc
    · exact hname c hc
    · exact hspace
    · exact encode_control_free c hc
    · exact hnewline

/-- A note parses exactly as the body and the signature lines it is the text of. -/
theorem parse_note_eq_ok_iff {note_bytes : Bytes} {body : Str} {lines : List SignatureLine} :
    parse_note note_bytes = .ok (body, lines) ↔
      note_bytes = as_bytes (note_text body lines) ∧ note_bytes.length ≤ MAX_NOTE_BYTES ∧
        lines ≠ [] ∧ lines.length ≤ MAX_SIGNATURE_LINES ∧ body.getLast? = some '\n' ∧
        ∀ c ∈ note_text body lines, is_forbidden_control c = false := by
  have hcontrol : ∀ text : Str, ¬ text.any is_forbidden_control = true ↔
      ∀ c ∈ text, is_forbidden_control c = false := by simp
  have hdrop : ∀ front back : Str,
      (front ++ (['\n', '\n'] ++ back)).drop (front.length + 2) = back := by simp [List.drop_append]
  have htake : ∀ front back : Str,
      (front ++ (['\n', '\n'] ++ back)).take (front.length + 1) = front ++ ['\n'] := by
    simp [List.take_append]
  simp only [parse_note, bind_eq_ok_iff, reject_if_eq_ok_iff, ok_or_eq_ok_iff, from_utf8_eq_some_iff,
    hcontrol, gt_iff_lt, not_lt, pure_eq_ok_iff, Prod.mk.injEq, not_or, ne_eq, Decidable.not_not]
  constructor
  · rintro ⟨_, hsize, text, rfl, _, hcontrols, split, hsplit, _, ⟨_, hend⟩, lines, hlines, rfl, rfl⟩
    obtain ⟨front, back, rfl, rfl, _⟩ := (rfind_eq_some_iff (by simp)).mp hsplit
    rw [hdrop] at hend hlines
    obtain ⟨hcap, _, rfl, hparsed⟩ := (parse_signature_lines_eq_ok_iff (by simp)).mp hlines
    have htext : front ++ (['\n', '\n'] ++ back) = note_text (front ++ ['\n']) lines := by
      rw [note_text, ← hparsed, join_lines_split_lines hend]
      simp
    have hne : lines ≠ [] := by
      rintro rfl
      exact split_lines_ne_nil _ _ hparsed
    rw [htake, ← htext]
    exact ⟨rfl, hsize, hne, hcap, by simp, hcontrols⟩
  · rintro ⟨rfl, hsize, hne, hcap, hend, hcontrols⟩
    obtain ⟨front, rfl⟩ := List.getLast?_eq_some_iff.mp hend
    have hmapNe : lines.map SignatureLine.to_text ≠ [] := by simpa using hne
    have hempty : [] ∉ lines.map SignatureLine.to_text := by
      simpa using fun line _ => line.not_mem_to_text.1
    have hnewline : ∀ line ∈ lines.map SignatureLine.to_text, '\n' ∉ line := by
      simpa using fun line _ => line.not_mem_to_text.2
    have htext : note_text (front ++ ['\n']) lines =
        front ++ (['\n', '\n'] ++ join_lines '\n' (lines.map SignatureLine.to_text)) := by
      simp [note_text]
    rw [htext] at hsize hcontrols ⊢
    refine ⟨(), hsize, _, rfl, (), hcontrols, front.length, ?_, (), ?_, lines, ?_, htake _ _, rfl⟩
    · rw [rfind_eq_some_iff (by simp)]
      exact ⟨front, _, rfl, rfl, not_infix_join_lines hempty hnewline⟩
    · rw [hdrop]
      refine ⟨fun h => ?_, getLast?_join_lines hmapNe⟩
      have hclosed := @getLast?_join_lines _ '\n' _ hmapNe
      simp [h] at hclosed
    · rw [hdrop, split_lines_join_lines hmapNe hnewline, parse_signature_lines_eq_ok_iff (by simp)]
      exact ⟨hcap, lines, rfl, rfl⟩

end Parse

section Verify

variable [Sha2] [Ed25519Dalek]

/-- The loop of `verify_note`: the first line of the verifier decides. -/
def verify_signature_lines (body : Str) (verifier : NoteVerifierKey) : List SignatureLine → TrustResult Str
  | [] => .error .NoteVerification
  | line :: lines =>
    if line.name ≠ verifier.name ∨ line.key_id ≠ verifier.key_id then
      verify_signature_lines body verifier lines
    else if line.signature.length = 64 ∧
        (Ed25519Identity.verify verifier.public_key (as_bytes body) line.signature).isOk then
      .ok body
    else .error .NoteVerification

/-- Whether a line is one of the verifier's, so that it decides the note. -/
def NoteVerifierKey.owns (verifier : NoteVerifierKey) (line : SignatureLine) : Bool :=
  line.name = verifier.name ∧ line.key_id = verifier.key_id

theorem verify_signature_lines_eq_ok_iff {body text : Str} {verifier : NoteVerifierKey}
    {lines : List SignatureLine} :
    verify_signature_lines body verifier lines = .ok text ↔ text = body ∧
      ∃ line, lines.find? verifier.owns = some line ∧
        Ed25519Identity.verify verifier.public_key (as_bytes body) line.signature = .ok () := by
  induction lines with
  | nil => simp [verify_signature_lines]
  | cons line lines ih =>
    rw [verify_signature_lines]
    by_cases howns : verifier.owns line = true
    · have hmatch : ¬ (line.name ≠ verifier.name ∨ line.key_id ≠ verifier.key_id) := by
        simpa [NoteVerifierKey.owns] using howns
      rw [if_neg hmatch, List.find?_cons_of_pos howns]
      constructor
      · intro h
        split at h
        next hverify => exact ⟨(Except.ok.inj h).symm, line, rfl, isOk_unit_iff.mp hverify.2⟩
        next => cases h
      · rintro ⟨rfl, _, hline, hverify⟩
        obtain rfl := Option.some.inj hline
        obtain ⟨array, harray, _⟩ := Ed25519Identity.verify_eq_ok_iff.mp hverify
        rw [if_pos ⟨by simp [harray], isOk_unit_iff.mpr hverify⟩]
    · have hmatch : line.name ≠ verifier.name ∨ line.key_id ≠ verifier.key_id := by
        rw [← not_and_or]
        simpa [NoteVerifierKey.owns] using howns
      rw [if_pos hmatch, List.find?_cons_of_neg howns, ih]

variable [Base64]

/-- Parses and verifies an untrusted note; returns the verified body. -/
def verify_note (note_bytes : Bytes) (verifier : NoteVerifierKey) : TrustResult Str := do
  let (body, signature_lines) ← parse_note note_bytes
  verify_signature_lines body verifier signature_lines

/-- `verify_note`, then the body parse and the origin-binding check. -/
def verify_checkpoint (note_bytes : Bytes) (verifier : NoteVerifierKey) : TrustResult CheckpointBody := do
  let body_text ← verify_note note_bytes verifier
  let body ← (CheckpointBody.parse body_text).mapError fun _ => .NoteVerification
  reject_if (body.origin ≠ verifier.name) .NoteVerification
  return body

theorem verify_note_eq_ok_iff {note_bytes : Bytes} {verifier : NoteVerifierKey} {text : Str} :
    verify_note note_bytes verifier = .ok text ↔ ∃ lines, parse_note note_bytes = .ok (text, lines) ∧
      ∃ line, lines.find? verifier.owns = some line ∧
        Ed25519Identity.verify verifier.public_key (as_bytes text) line.signature = .ok () := by
  simp only [verify_note, bind_eq_ok_iff, verify_signature_lines_eq_ok_iff]
  constructor
  · rintro ⟨⟨body, lines⟩, hparse, rfl, hline⟩
    exact ⟨lines, hparse, hline⟩
  · rintro ⟨lines, hparse, hline⟩
    exact ⟨(text, lines), hparse, rfl, hline⟩

/-- A verified checkpoint is bound to the verifier's name. -/
theorem origin_eq_of_verify_checkpoint_eq_ok {note_bytes : Bytes} {verifier : NoteVerifierKey}
    {body : CheckpointBody} (h : verify_checkpoint note_bytes verifier = .ok body) :
    body.origin = verifier.name := by
  simp only [verify_checkpoint, bind_eq_ok_iff, reject_if_eq_ok_iff, ne_eq, Decidable.not_not,
    pure_eq_ok_iff] at h
  obtain ⟨_, _, _, _, _, horigin, rfl⟩ := h
  exact horigin

variable [StandardBase64]

/-- A note signed under a name without control characters verifies under that name and
the signer's key. -/
theorem verify_note_sign_note [GenuineEd25519] {body name note : Str} {identity : Ed25519Identity}
    {verifier : NoteVerifierKey} (hsign : sign_note body name identity = .ok note)
    (hcontrol : ∀ c ∈ name, is_forbidden_control c = false)
    (hverifier : NoteVerifierKey.new name identity.public_key_bytes = .ok verifier) :
    verify_note (as_bytes note) verifier = .ok body := by
  obtain ⟨⟨hend, _, hbody⟩, line, rfl, hid, hsig, rfl, hsize⟩ := sign_note_eq_ok_iff.mp hsign
  obtain ⟨hname, hkey⟩ := NoteVerifierKey.eq_of_new_eq_ok hverifier
  have hkeyId : verifier.key_id = line.key_id := by
    have h := verifier.key_id_eq
    rw [hname, hkey, hid] at h
    exact (Except.ok.inj h).symm
  have howns : verifier.owns line = true := by simp [NoteVerifierKey.owns, hname, hkeyId]
  rw [verify_note_eq_ok_iff]
  refine ⟨[line], ?_, line, by simp [howns], ?_⟩
  · rw [parse_note_eq_ok_iff]
    exact ⟨rfl, hsize, List.cons_ne_nil _ _, Nat.one_le_ofNat, hend,
      note_text_control_free_iff.mpr ⟨hbody, hcontrol⟩⟩
  · rw [hkey, hsig]
    exact identity.verify_sign (as_bytes body)

/-- A signed checkpoint body verifies under its origin and the signer's key. -/
theorem verify_checkpoint_sign_note [GenuineEd25519] {body : CheckpointBody} {note : Str}
    {identity : Ed25519Identity} {verifier : NoteVerifierKey}
    (hsign : sign_note body.encode body.origin identity = .ok note)
    (hverifier : NoteVerifierKey.new body.origin identity.public_key_bytes = .ok verifier) :
    verify_checkpoint (as_bytes note) verifier = .ok body := by
  have hcontrol : ∀ c ∈ body.origin, is_forbidden_control c = false := by
    intro c hc
    refine (sign_note_eq_ok_iff.mp hsign).1.2.2 c ?_
    simp [CheckpointBody.encode, hc]
  obtain ⟨hname, _⟩ := NoteVerifierKey.eq_of_new_eq_ok hverifier
  rw [verify_checkpoint, verify_note_sign_note hsign hcontrol hverifier, ok_bind,
    CheckpointBody.parse_encode]
  simp [Except.mapError, hname]

end Verify

end lys
