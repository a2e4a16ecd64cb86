import Lys.Checkpoint.Note
import Lys.GoNote.Open
import Lys.Reference

open rust

namespace go.note

/-- The key hash of a server name and an encoded public key. -/
def keyHash [lys.Sha2] (name key : Bytes) : UInt32 :=
  BigEndianUint32 (lys.sha256 (name ++ [0x0a] ++ key)).as_slice

end go.note

namespace lys

open go.note (Verifiers VerifierList OpenState Open openLine parseLine)

/-- The Ed25519 verifier that Go's `NewVerifier` makes of a name and a key. Its acceptance
predicate is the one of `Ed25519Identity::verify`. -/
def go_verifier [Sha2] [Ed25519Dalek] (name : Str) (public_key : U8Array 32) : go.note.Verifier where
  Name := as_bytes name
  KeyHash := go.note.keyHash (as_bytes name) (0x01 :: public_key.as_slice)
  Verify := fun msg sig => (Ed25519Identity.verify public_key msg sig).isOk

/-- Every signature blob of a message is the padded base64 of its decoding. -/
def CanonicalBlobs (msg : Bytes) : Prop :=
  ∀ split, rfind [0x0a, 0x0a] msg = some split → ∀ line ∈ split_lines 0x0a (msg.drop (split + 2)),
    ∀ rest, strip_prefix go.note.sigPrefix line = some rest →
      ∀ blob, go.DecodeString (go.note.chop rest 0x20).2 = some blob →
        (go.note.chop rest 0x20).2 = as_bytes (rfc4648.encode blob)

section Text

@[simp] theorem encode_newline : String.utf8EncodeChar '\n' = [0x0a] := rfl

theorem newline_mem_as_bytes_iff {s : Str} : 0x0a ∈ as_bytes s ↔ '\n' ∈ s :=
  mem_as_bytes_ascii_iff (c := '\n') (by decide)

theorem getLast?_as_bytes_iff {s : Str} : (as_bytes s).getLast? = some 0x0a ↔ s.getLast? = some '\n' := by
  constructor
  · intro h
    obtain ⟨front, h⟩ := List.getLast?_eq_some_iff.mp h
    obtain ⟨left, right, rfl, _, hright⟩ := exists_of_as_bytes_eq_append_cons (c := '\n') (by decide) h
    have hempty : right = [] := as_bytes_injective hright.symm
    simp [hempty]
  · intro h
    obtain ⟨front, rfl⟩ := List.getLast?_eq_some_iff.mp h
    rw [as_bytes_append]
    exact List.getLast?_concat

theorem as_bytes_join_lines (lines : List Str) :
    as_bytes (join_lines '\n' lines) = join_lines 0x0a (lines.map as_bytes) := by
  induction lines with
  | nil => rfl
  | cons line lines ih =>
    rw [join_lines_cons, List.map_cons, join_lines_cons, as_bytes_append, as_bytes_cons, ih]
    rfl

theorem as_bytes_eq_nil_iff {s : Str} : as_bytes s = [] ↔ s = [] :=
  ⟨fun h => as_bytes_injective h, fun h => by rw [h]; rfl⟩

/-- Go's check of the runes accepts the bytes of the texts without control characters. -/
theorem any_isMalformedRune_eq_false_iff {msg : Bytes} :
    (go.runes msg).any go.note.isMalformedRune = false ↔
      ∃ text, msg = as_bytes text ∧ ∀ c ∈ text, is_forbidden_control c = false := by
  constructor
  · intro h
    rw [List.any_eq_false] at h
    obtain ⟨text, rfl⟩ : ∃ text, msg = as_bytes text := go.exists_of_forall_isSome_runes fun rune hrune => by
      cases rune with
      | none => exact absurd rfl (h none hrune)
      | some c => rfl
    refine ⟨text, rfl, fun c hc => ?_⟩
    rw [go.runes_as_bytes] at h
    simpa [go.note.isMalformedRune, is_forbidden_control] using h (some c) (by simp [hc])
  · rintro ⟨text, rfl, h⟩
    rw [go.runes_as_bytes, List.any_map, List.any_eq_false]
    intro c hc
    simpa [go.note.isMalformedRune, is_forbidden_control] using h c hc

end Text

section Open

/-- The state in which `Open` enters its loop. -/
def initialState (text : Bytes) : OpenState := ⟨⟨text, [], []⟩, [], [], 0⟩

/-- The last blank line of a note cuts its bytes behind the body. -/
theorem cut_note_bytes {body : Str} {lines : List Str} (hend : body.getLast? = some '\n')
    (hlines : ∀ line ∈ lines, line ≠ [] ∧ '\n' ∉ line) :
    ∃ split, rfind [0x0a, 0x0a] (as_bytes (body ++ '\n' :: join_lines '\n' lines)) = some split ∧
      (as_bytes (body ++ '\n' :: join_lines '\n' lines)).take (split + 1) = as_bytes body ∧
      (as_bytes (body ++ '\n' :: join_lines '\n' lines)).drop (split + 2) =
        join_lines 0x0a (lines.map as_bytes) ∧
      ∀ line ∈ lines.map as_bytes, 0x0a ∉ line := by
  obtain ⟨front, rfl⟩ := List.getLast?_eq_some_iff.mp hend
  have htext : as_bytes (front ++ ['\n'] ++ '\n' :: join_lines '\n' lines) =
      as_bytes front ++ ([0x0a, 0x0a] ++ join_lines 0x0a (lines.map as_bytes)) := by
    simp [as_bytes_join_lines]
  have hempty : [] ∉ lines.map as_bytes := by
    simpa [as_bytes_eq_nil_iff] using fun h => (hlines [] h).1 rfl
  have hnewline : ∀ line ∈ lines.map as_bytes, 0x0a ∉ line := by
    simpa [newline_mem_as_bytes_iff] using fun line hline => (hlines line hline).2
  rw [htext]
  refine ⟨(as_bytes front).length, ?_, ?_, ?_, hnewline⟩
  · rw [rfind_eq_some_iff (by simp)]
    exact ⟨as_bytes front, _, rfl, rfl, not_infix_join_lines hempty hnewline⟩
  · rw [as_bytes_append]
    simp [List.take_append]
  · simp [List.drop_append]

/-- `Open` accepts a body, a blank line and non-empty lines through which its loop runs
with at least one verified signature. -/
theorem open_eq_ok_iff {msg : Bytes} {known : Verifiers} {n : go.note.Note} :
    Open msg known = .ok n ↔ ∃ (body : Str) (lines : List Str) (st : OpenState),
      msg = as_bytes (body ++ '\n' :: join_lines '\n' lines) ∧ body.getLast? = some '\n' ∧
      lines ≠ [] ∧ (∀ line ∈ lines, line ≠ [] ∧ '\n' ∉ line) ∧
      (∀ c ∈ body ++ '\n' :: join_lines '\n' lines, is_forbidden_control c = false) ∧
      (lines.map as_bytes).foldlM (openLine known (as_bytes body)) (initialState (as_bytes body)) = .ok st ∧
      st.n.Sigs ≠ [] ∧ n = st.n := by
  have hdrop : ∀ front back : Bytes,
      (front ++ ([0x0a, 0x0a] ++ back)).drop (front.length + 2) = back := by simp [List.drop_append]
  have htake : ∀ front back : Bytes,
      (front ++ ([0x0a, 0x0a] ++ back)).take (front.length + 1) = front ++ [0x0a] := by
    simp [List.take_append]
  simp only [Open, bind_eq_ok_iff, reject_if_eq_ok_iff, ok_or_eq_ok_iff, Bool.not_eq_true,
    any_isMalformedRune_eq_false_iff, pure_eq_ok_iff, not_or, ne_eq, Decidable.not_not]
  constructor
  · rintro ⟨_, ⟨text, rfl, hcontrols⟩, split, hsplit, _, ⟨_, hend⟩, st, hloop, _, hsigs, rfl⟩
    obtain ⟨front, back, hcut, rfl, hlast⟩ := (rfind_eq_some_iff (by simp)).mp hsplit
    obtain ⟨left, right, rfl, rfl, hright⟩ :=
      exists_of_as_bytes_eq_append_cons (c := '\n') (by decide) hcut
    obtain ⟨empty, block, rfl, hempty, rfl⟩ :=
      @exists_of_as_bytes_eq_append_cons '\n' (by decide) _ [] _ hright.symm
    obtain rfl : empty = [] := as_bytes_injective hempty.symm
    rw [hcut, hdrop] at hend hloop
    rw [htake] at hloop
    have hblock := getLast?_as_bytes_iff.mp hend
    have hnewline : ∀ line ∈ split_lines '\n' block, '\n' ∉ line := fun line =>
      not_mem_of_mem_split_lines
    have hnonempty : [] ∉ split_lines '\n' block := by
      intro hmem
      obtain ⟨before, after, hblank⟩ := @infix_join_lines_of_mem _ '\n' _ hmem
      rw [join_lines_split_lines hblock] at hblank
      refine hlast ⟨as_bytes before, as_bytes after, ?_⟩
      have hbytes := congrArg as_bytes hblank
      simpa [as_bytes_append] using hbytes
    refine ⟨left ++ ['\n'], split_lines '\n' block, st, ?_, by simp, split_lines_ne_nil _ _, ?_, ?_, ?_,
      hsigs, rfl⟩
    · rw [join_lines_split_lines hblock]
      simp
    · exact fun line hline => ⟨fun h => hnonempty (h ▸ hline), hnewline line hline⟩
    · rw [join_lines_split_lines hblock]
      simpa using hcontrols
    · have hlines : ∀ line ∈ (split_lines '\n' block).map as_bytes, 0x0a ∉ line := by
        simpa [newline_mem_as_bytes_iff] using hnewline
      rw [← go.note.openLines_join_lines hlines, ← as_bytes_join_lines, join_lines_split_lines hblock,
        as_bytes_append]
      exact hloop
  · rintro ⟨body, lines, st, rfl, hend, hne, hlines, hcontrols, hloop, hsigs, rfl⟩
    obtain ⟨split, hsplit, htake, hdrop, hnewline⟩ := cut_note_bytes hend hlines
    have hmapNe : lines.map as_bytes ≠ [] := by simpa using hne
    have hclosed := @getLast?_join_lines _ 0x0a _ hmapNe
    refine ⟨(), ⟨_, rfl, hcontrols⟩, split, hsplit, (), ?_, st, ?_, (), hsigs, rfl⟩
    · rw [hdrop]
      exact ⟨fun h => by simp [h] at hclosed, hclosed⟩
    · rw [hdrop, htake, go.note.openLines_join_lines hnewline]
      exact hloop

/-- An iteration of Go's loop reads its line and leaves the text alone. -/
theorem of_openLine_eq_ok {known : Verifiers} {text line : Bytes} {st st' : OpenState}
    (h : openLine known text st line = .ok st') :
    (∃ parts, parseLine line = .ok parts) ∧ st'.n.Text = st.n.Text := by
  rw [openLine, bind_eq_ok_iff] at h
  obtain ⟨parts, hparts, h⟩ := h
  refine ⟨⟨parts, hparts⟩, ?_⟩
  simp only [bind_eq_ok_iff] at h
  obtain ⟨_, _, h⟩ := h
  split at h
  · split at h <;> exact Except.ok.inj h ▸ rfl
  · cases h
  · rw [bind_eq_ok_iff] at h
    obtain ⟨_, _, h⟩ := h
    split at h
    · exact Except.ok.inj h ▸ rfl
    · rw [bind_eq_ok_iff] at h
      obtain ⟨_, _, h⟩ := h
      exact Except.ok.inj h ▸ rfl

theorem of_foldlM_openLine_eq_ok {known : Verifiers} {text : Bytes} {lines : List Bytes} {st st' : OpenState}
    (h : lines.foldlM (openLine known text) st = .ok st') :
    (∀ line ∈ lines, ∃ parts, parseLine line = .ok parts) ∧ st'.n.Text = st.n.Text := by
  induction lines generalizing st with
  | nil => exact ⟨by simp, by rw [← Except.ok.inj h]⟩
  | cons line lines ih =>
    rw [List.foldlM_cons, bind_eq_ok_iff] at h
    obtain ⟨mid, hline, hrest⟩ := h
    obtain ⟨hread, htext⟩ := of_openLine_eq_ok hline
    obtain ⟨hreads, htexts⟩ := ih hrest
    exact ⟨List.forall_mem_cons.mpr ⟨hread, hreads⟩, htexts.trans htext⟩

end Open

section Line

theorem as_bytes_SIG_PREFIX : as_bytes SIG_PREFIX = go.note.sigPrefix := by decide

/-- Go's name rule is the one of `validate_note_name`. -/
theorem isValidName_as_bytes_iff {name : Str} :
    go.note.isValidName (as_bytes name) = true ↔ validate_note_name name = .ok () := by
  have hplus : 0x2b ∈ as_bytes name ↔ '+' ∈ name := mem_as_bytes_ascii_iff (c := '+') (by decide)
  rw [validate_note_name_eq_ok_iff]
  simp [go.note.isValidName, as_bytes_eq_nil_iff, go.runes_as_bytes, go.IsSpace, hplus, and_assoc]

/-- Go cuts the bytes of a text at its first separator. -/
theorem chop_as_bytes {c : Char} (hc : c.toNat < 128) {front back : Str} (h : c ∉ front) :
    go.note.chop (as_bytes (front ++ c :: back)) (UInt8.ofNat c.toNat) = (as_bytes front, as_bytes back) := by
  have hnot : UInt8.ofNat c.toNat ∉ as_bytes front := fun hmem => h ((mem_as_bytes_ascii_iff hc).mp hmem)
  have hcut : split_once (UInt8.ofNat c.toNat) (as_bytes (front ++ c :: back)) =
      some (as_bytes front, as_bytes back) := by
    rw [split_once_eq_some_iff, as_bytes_append, as_bytes_cons, encode_char_ascii hc]
    exact ⟨rfl, hnot⟩
  rw [go.note.chop, hcut, Option.getD_some]

theorem chop_space {front back : Str} (h : ' ' ∉ front) :
    go.note.chop (as_bytes (front ++ ' ' :: back)) 0x20 = (as_bytes front, as_bytes back) :=
  chop_as_bytes (by decide) h

variable [Base64] [StandardBase64]

/-- Go reads a signature line as the parts it was written from. -/
theorem parseLine_to_text (line : SignatureLine) :
    parseLine (as_bytes line.to_text) = .ok
      (as_bytes (line.name ++ ' ' :: Base64.encode (line.key_id.as_slice ++ line.signature)),
        as_bytes line.name, go.BigEndianUint32 line.key_id.as_slice, line.signature,
        as_bytes (Base64.encode (line.key_id.as_slice ++ line.signature))) := by
  have hpos := List.length_pos_of_ne_nil line.signature_ne_nil
  have hstarts : strip_prefix go.note.sigPrefix (as_bytes line.to_text) =
      some (as_bytes (line.name ++ ' ' :: Base64.encode (line.key_id.as_slice ++ line.signature))) := by
    rw [strip_prefix_eq_some_iff, SignatureLine.to_text, as_bytes_append, as_bytes_SIG_PREFIX]
  have hblob : as_bytes (Base64.encode (line.key_id.as_slice ++ line.signature)) ≠ [] := by
    intro h
    have hlength := length_as_bytes_encode (line.key_id.as_slice ++ line.signature)
    rw [h, List.length_nil, List.length_append] at hlength
    omega
  have hcheck : ¬ (go.note.isValidName (as_bytes line.name) = false ∨
      as_bytes (Base64.encode (line.key_id.as_slice ++ line.signature)) = [] ∨
      (line.key_id.as_slice ++ line.signature).length < 5) := by
    rw [isValidName_as_bytes_iff.mpr line.name_valid, List.length_append, line.key_id.length_eq]
    simp only [Bool.true_eq_false, hblob, false_or, not_lt]
    omega
  have hdecode : go.DecodeString (as_bytes (Base64.encode (line.key_id.as_slice ++ line.signature))) =
      some (line.key_id.as_slice ++ line.signature) := by
    rw [StandardBase64.encode_eq, go.decodeString_encode]
  have hhash : go.BigEndianUint32 (line.key_id.as_slice ++ line.signature) =
      go.BigEndianUint32 line.key_id.as_slice := by
    rw [go.BigEndianUint32, go.BigEndianUint32, List.take_left' line.key_id.length_eq,
      List.take_of_length_le line.key_id.length_eq.le]
  have hdrop : (line.key_id.as_slice ++ line.signature).drop 4 = line.signature :=
    List.drop_left' line.key_id.length_eq
  simp only [parseLine, hstarts, ok_or, ok_bind, chop_space (space_not_mem_note_name line.name_valid),
    hdecode, reject_if_of_not hcheck, hhash, hdrop, pure_eq_ok_iff]

/-- A line that Go reads, with a canonical blob, is written from its parts. -/
theorem exists_to_text_of_parseLine {line : Str} {parts : Bytes × Bytes × UInt32 × Bytes × Bytes}
    (h : parseLine (as_bytes line) = .ok parts)
    (hcanonical : ∀ rest, strip_prefix go.note.sigPrefix (as_bytes line) = some rest →
      ∀ blob, go.DecodeString (go.note.chop rest 0x20).2 = some blob →
        (go.note.chop rest 0x20).2 = as_bytes (rfc4648.encode blob)) :
    ∃ parsed : SignatureLine, line = parsed.to_text := by
  simp only [parseLine, bind_eq_ok_iff, ok_or_eq_ok_iff, reject_if_eq_ok_iff, not_or, not_lt] at h
  obtain ⟨rest, hrest, blob, hblob, _, ⟨hname, hne, hlen⟩, _⟩ := h
  have hcanon := hcanonical rest hrest blob hblob
  rw [strip_prefix_eq_some_iff, ← as_bytes_SIG_PREFIX] at hrest
  obtain ⟨rest, rfl, rfl⟩ := exists_of_as_bytes_eq_append hrest
  cases hcut : split_once 0x20 (as_bytes rest) with
  | none => simp [go.note.chop, hcut] at hne
  | some cut =>
    obtain ⟨front, back⟩ := cut
    obtain ⟨hcutEq, _⟩ := split_once_eq_some_iff.mp hcut
    obtain ⟨name, b64, rfl, rfl, rfl⟩ :=
      exists_of_as_bytes_eq_append_cons (c := ' ') (by decide) hcutEq
    simp only [go.note.chop, hcut, Option.getD_some] at hname hcanon
    have hvalid := isValidName_as_bytes_iff.mp (Bool.not_eq_false _ ▸ hname)
    have hb64 := as_bytes_injective hcanon
    have hsig : blob.drop 4 ≠ [] := by
      rw [ne_eq, List.drop_eq_nil_iff]
      omega
    refine ⟨⟨name, ⟨blob.take 4, by simp; omega⟩, blob.drop 4, hvalid, hsig⟩, ?_⟩
    rw [SignatureLine.to_text, List.take_append_drop, StandardBase64.encode_eq, hb64]

end Line

section Loop

variable [Sha2]

/-- Go computes the key hash of a lys verifier key from its key ID. -/
theorem keyHash_eq (verifier : NoteVerifierKey) :
    go.note.keyHash (as_bytes verifier.name) (0x01 :: verifier.public_key.as_slice) =
      go.BigEndianUint32 verifier.key_id.as_slice := by
  have h := verifier.key_id_eq
  simp only [key_id, verifier.name_valid, ok_bind, pure_eq_ok_iff] at h
  rw [← h, go.note.keyHash, go.BigEndianUint32, go.BigEndianUint32, U8Array.first, List.take_take]
  simp

/-- The lookup key under which Go knows a verifier. -/
def go_key (verifier : NoteVerifierKey) : Bytes × UInt32 :=
  (as_bytes verifier.name, go.BigEndianUint32 verifier.key_id.as_slice)

variable {verifier : NoteVerifierKey}

theorem go_key_eq_of_owns {line : SignatureLine} (h : verifier.owns line = true) :
    go_key verifier = (as_bytes line.name, go.BigEndianUint32 line.key_id.as_slice) := by
  obtain ⟨hname, hid⟩ : line.name = verifier.name ∧ line.key_id = verifier.key_id := by
    simpa [NoteVerifierKey.owns] using h
  rw [go_key, hname, hid]

/-- The state of Go's loop after `k` lines, of which one was the verifier's if `decided`. -/
structure Tracks (verifier : NoteVerifierKey) (st : OpenState) (k : Nat) (decided : Bool) : Prop where
  numSig : st.numSig = k
  seen : go_key verifier ∈ st.seen ↔ decided = true
  sigs : st.n.Sigs ≠ [] ↔ decided = true

theorem tracks_initialState (text : Bytes) : Tracks verifier (initialState text) 0 false :=
  ⟨rfl, by simp [initialState], by simp [initialState]⟩

variable [Ed25519Dalek]

/-- The verifiers a lys verifier key stands for. -/
def go_verifiers (verifier : NoteVerifierKey) : Verifiers :=
  VerifierList [go_verifier verifier.name verifier.public_key]

theorem go_verifiers_eq (line : SignatureLine) :
    go_verifiers verifier (as_bytes line.name) (go.BigEndianUint32 line.key_id.as_slice) =
      if verifier.owns line then .ok (go_verifier verifier.name verifier.public_key)
      else .error (.UnknownVerifier (as_bytes line.name) (go.BigEndianUint32 line.key_id.as_slice)) := by
  have hmatch : ((go_verifier verifier.name verifier.public_key).Name = as_bytes line.name ∧
      (go_verifier verifier.name verifier.public_key).KeyHash =
        go.BigEndianUint32 line.key_id.as_slice) ↔ verifier.owns line = true := by
    simp only [go_verifier, keyHash_eq, NoteVerifierKey.owns, decide_eq_true_eq]
    constructor
    · rintro ⟨hname, hhash⟩
      refine ⟨(as_bytes_injective hname).symm, (go.bigEndianUint32_inj (s := []) (t := []) ?_).symm⟩
      simpa using hhash
    · rintro ⟨hname, hid⟩
      rw [hname, hid]
      exact ⟨rfl, rfl⟩
  unfold go_verifiers VerifierList
  by_cases howns : verifier.owns line = true
  · simp [hmatch.mpr howns, howns]
  · simp [mt hmatch.mp howns, howns]

variable [Base64] [StandardBase64]

/-- Whether Go's loop goes past a line: below the cap, a line of the verifier is either a
repeated one or verifies. -/
def Passes (verifier : NoteVerifierKey) (text : Bytes) (k : Nat) (decided : Bool) (line : SignatureLine) : Prop :=
  k + 1 ≤ 100 ∧ (verifier.owns line = true → decided = true ∨
    Ed25519Identity.verify verifier.public_key text line.signature = .ok ())

/-- One iteration of Go's loop, from a state that tracks the lines before it. -/
theorem passes_of_openLine_eq_ok {text : Bytes} {st st' : OpenState} {k : Nat} {decided : Bool}
    {line : SignatureLine} (h : Tracks verifier st k decided)
    (hopen : openLine (go_verifiers verifier) text st (as_bytes line.to_text) = .ok st') :
    Passes verifier text k decided line ∧ Tracks verifier st' (k + 1) (decided || verifier.owns line) := by
  simp only [openLine, parseLine_to_text, ok_bind, bind_eq_ok_iff, reject_if_eq_ok_iff, go_verifiers_eq,
    h.numSig, gt_iff_lt, not_lt] at hopen
  obtain ⟨_, hcap, hopen⟩ := hopen
  by_cases howns : verifier.owns line = true
  · rw [if_pos howns] at hopen
    simp only [bind_eq_ok_iff] at hopen
    obtain ⟨_, _, hopen⟩ := hopen
    rw [← go_key_eq_of_owns howns] at hopen
    split at hopen
    next hseen =>
      obtain rfl := Except.ok.inj hopen
      have hdecided := h.seen.mp hseen
      refine ⟨⟨hcap, fun _ => .inl hdecided⟩, ⟨rfl, ?_, ?_⟩⟩
      · simp [hseen, hdecided]
      · simp [h.sigs, hdecided]
    next hseen =>
      simp only [bind_eq_ok_iff, reject_if_eq_ok_iff, pure_eq_ok_iff] at hopen
      obtain ⟨_, hverify, rfl⟩ := hopen
      refine ⟨⟨hcap, fun _ => .inr ?_⟩, ⟨rfl, ?_, ?_⟩⟩
      · simpa [go_verifier, isOk_unit_iff] using hverify
      · simp [howns]
      · simp [howns]
  · rw [if_neg howns] at hopen
    refine ⟨⟨hcap, fun h => absurd h howns⟩, ?_⟩
    simp only [Bool.not_eq_true] at howns
    simp only at hopen
    split at hopen
    · obtain rfl := Except.ok.inj hopen
      exact ⟨rfl, by simp [howns, h.seen], by simp [howns, h.sigs]⟩
    · obtain rfl := Except.ok.inj hopen
      exact ⟨rfl, by simp [howns, h.seen], by simp [howns, h.sigs]⟩

/-- Go's loop goes past every line that passes. -/
theorem exists_openLine_eq_ok {text : Bytes} {st : OpenState} {k : Nat} {decided : Bool} {line : SignatureLine}
    (h : Tracks verifier st k decided) (hpass : Passes verifier text k decided line) :
    ∃ st', openLine (go_verifiers verifier) text st (as_bytes line.to_text) = .ok st' := by
  obtain ⟨hcap, hverify⟩ := hpass
  have hnumSig : ¬ st.numSig + 1 > 100 := by
    rw [h.numSig]
    omega
  simp only [openLine, parseLine_to_text, ok_bind, reject_if_of_not hnumSig, go_verifiers_eq]
  by_cases howns : verifier.owns line = true
  · rw [if_pos howns]
    have hkey := go_key_eq_of_owns howns
    have hmatch : ¬ ((go_verifier verifier.name verifier.public_key).Name ≠ as_bytes line.name ∨
        (go_verifier verifier.name verifier.public_key).KeyHash ≠ go.BigEndianUint32 line.key_id.as_slice) := by
      have hname := congrArg Prod.fst hkey
      have hhash := congrArg Prod.snd hkey
      exact not_or.mpr ⟨not_not.mpr hname, not_not.mpr ((keyHash_eq verifier).trans hhash)⟩
    simp only [reject_if_of_not hmatch, ok_bind, ← hkey]
    split
    next => exact ⟨_, rfl⟩
    next hseen =>
      have hok := (hverify howns).resolve_left fun hdecided => hseen (h.seen.mpr hdecided)
      have hreject : ¬ (go_verifier verifier.name verifier.public_key).Verify text line.signature = false := by
        simp [go_verifier, hok, Except.isOk, Except.toBool]
      rw [reject_if_of_not hreject]
      exact ⟨_, rfl⟩
  · rw [if_neg howns]
    simp only
    split
    · exact ⟨_, rfl⟩
    · exact ⟨_, rfl⟩

/-- Go's loop accepts at most 100 lines of which the verifier's first one verifies. -/
theorem openLines_iff {text : Bytes} {st : OpenState} {k : Nat} {decided : Bool} {lines : List SignatureLine}
    (h : Tracks verifier st k decided) (hk : k ≤ 100) :
    (∃ st', (lines.map fun line => as_bytes line.to_text).foldlM (openLine (go_verifiers verifier) text) st =
        .ok st' ∧ st'.n.Sigs ≠ []) ↔
      k + lines.length ≤ 100 ∧ (decided = true ∨ ∃ line, lines.find? verifier.owns = some line ∧
        Ed25519Identity.verify verifier.public_key text line.signature = .ok ()) := by
  induction lines generalizing st k decided with
  | nil => simp [h.sigs, hk, pure, Except.pure]
  | cons line lines ih =>
    rw [List.map_cons, List.foldlM_cons]
    simp only [bind_eq_ok_iff]
    constructor
    · rintro ⟨st', ⟨mid, hline, hrest⟩, hsigs⟩
      obtain ⟨⟨hcap, hverify⟩, hmid⟩ := passes_of_openLine_eq_ok h hline
      obtain ⟨hlength, hfirst⟩ := (ih hmid hcap).mp ⟨st', hrest, hsigs⟩
      refine ⟨by rw [List.length_cons]; omega, ?_⟩
      by_cases howns : verifier.owns line = true
      · rw [List.find?_cons_of_pos howns]
        exact (hverify howns).imp_right fun hok => ⟨line, rfl, hok⟩
      · rw [List.find?_cons_of_neg howns]
        simpa [howns] using hfirst
    · rintro ⟨hlength, hfirst⟩
      rw [List.length_cons] at hlength
      have hpass : Passes verifier text k decided line := by
        refine ⟨by omega, fun howns => hfirst.imp_right ?_⟩
        rw [List.find?_cons_of_pos howns]
        rintro ⟨_, hline, hok⟩
        rwa [Option.some.inj hline]
      obtain ⟨mid, hline⟩ := exists_openLine_eq_ok h hpass
      obtain ⟨_, hmid⟩ := passes_of_openLine_eq_ok h hline
      have hrest : k + 1 + lines.length ≤ 100 ∧ ((decided || verifier.owns line) = true ∨
          ∃ line, lines.find? verifier.owns = some line ∧
            Ed25519Identity.verify verifier.public_key text line.signature = .ok ()) := by
        refine ⟨by omega, ?_⟩
        by_cases howns : verifier.owns line = true
        · simp [howns]
        · rw [List.find?_cons_of_neg howns] at hfirst
          simpa [howns] using hfirst
      obtain ⟨st', hfold, hsigs⟩ := (ih hmid hpass.1).mpr hrest
      exact ⟨st', ⟨mid, hline, hfold⟩, hsigs⟩

end Loop

section Agreement

variable [Sha2] [Ed25519Dalek] [Base64] [StandardBase64]

/-- What `verify_note` accepts Go accepts with the same text. -/
theorem exists_open_eq_ok_of_verify_note {m : Bytes} {v : NoteVerifierKey} {t : Str}
    (h : verify_note m v = .ok t) :
    ∃ n, Open m (VerifierList [go_verifier v.name v.public_key]) = .ok n ∧ n.Text = as_bytes t := by
  obtain ⟨lines, hparse, hfirst⟩ := verify_note_eq_ok_iff.mp h
  obtain ⟨rfl, _, hne, hcap, hend, hcontrols⟩ := parse_note_eq_ok_iff.mp hparse
  obtain ⟨st, hfold, hsigs⟩ := (openLines_iff (tracks_initialState (as_bytes t)) (Nat.zero_le _)).mpr
    ⟨by rwa [Nat.zero_add], .inr hfirst⟩
  refine ⟨st.n, ?_, (of_foldlM_openLine_eq_ok hfold).2⟩
  rw [open_eq_ok_iff]
  refine ⟨t, lines.map SignatureLine.to_text, st, rfl, hend, by simpa using hne, ?_, hcontrols, ?_, hsigs, rfl⟩
  · simpa using fun line _ => line.not_mem_to_text
  · rw [List.map_map]
    exact hfold

/-- What Go accepts of an allowed size `verify_note` accepts, if the blobs are canonical. -/
theorem exists_verify_note_of_open_eq_ok {m : Bytes} {v : NoteVerifierKey} {n : go.note.Note}
    (hsize : m.length ≤ MAX_NOTE_BYTES)
    (h : Open m (VerifierList [go_verifier v.name v.public_key]) = .ok n) (hcanonical : CanonicalBlobs m) :
    ∃ t, n.Text = as_bytes t ∧ verify_note m v = .ok t := by
  obtain ⟨body, lines, st, rfl, hend, hne, hlines, hcontrols, hfold, hsigs, rfl⟩ := open_eq_ok_iff.mp h
  obtain ⟨split, hsplit, _, hdrop, hnewline⟩ := cut_note_bytes hend hlines
  obtain ⟨hreads, htext⟩ := of_foldlM_openLine_eq_ok hfold
  have hwritten : ∀ line ∈ lines, ∃ parsed : SignatureLine, line = parsed.to_text := by
    intro line hline
    obtain ⟨parts, hparts⟩ := hreads (as_bytes line) (List.mem_map_of_mem hline)
    refine exists_to_text_of_parseLine hparts (hcanonical split hsplit (as_bytes line) ?_)
    rw [hdrop, split_lines_join_lines (by simpa using hne) hnewline]
    exact List.mem_map_of_mem hline
  obtain ⟨parsed, rfl⟩ : ∃ parsed : List SignatureLine, parsed.map SignatureLine.to_text = lines := by
    rw [← Set.mem_range, Set.range_list_map]
    exact fun line hline => (hwritten line hline).imp fun _ h => h.symm
  refine ⟨body, htext, ?_⟩
  rw [List.map_map] at hfold
  obtain ⟨hcap, hfirst⟩ := (openLines_iff (tracks_initialState (as_bytes body)) (Nat.zero_le _)).mp
    ⟨st, hfold, hsigs⟩
  rw [verify_note_eq_ok_iff]
  refine ⟨parsed, parse_note_eq_ok_iff.mpr ⟨rfl, hsize, ?_, ?_, hend, hcontrols⟩, ?_⟩
  · simpa using hne
  · rwa [Nat.zero_add] at hcap
  · simpa using hfirst

/-- `verify_note` agrees with Go's `note.Open`: what it accepts Go accepts with the same
text, and what Go accepts it accepts whenever the signature blobs are canonical. -/
theorem verify_note_agrees_with_go (m : Bytes) (v : NoteVerifierKey) (hsize : m.length ≤ 2 ^ 20) :
    (∀ t, verify_note m v = .ok t →
      ∃ n, Open m (VerifierList [go_verifier v.name v.public_key]) = .ok n ∧ n.Text = as_bytes t) ∧
    (∀ n, Open m (VerifierList [go_verifier v.name v.public_key]) = .ok n → CanonicalBlobs m →
      ∃ t, n.Text = as_bytes t ∧ verify_note m v = .ok t) :=
  ⟨fun _ => exists_open_eq_ok_of_verify_note, fun _ => exists_verify_note_of_open_eq_ok hsize⟩

end Agreement

section

open reference

/-- A note by the zero seed's key, named `a`, over the body `"a\n"`. -/
def signed_note : Str :=
  "a\n\n— a 9Cyq6jJ66nINLhjfu4+YXgu3hiKWZZKd5zlNfEmxSiAeDB86ihDiflOI5ZtyCwj4lssfASCaXLB7MixQ9BjlFIWrLQM=\n".toList

theorem verify_note_agrees_with_go_signed_note :
    ∃ v, NoteVerifierKey.new ['a'] zero_public_key = .ok v ∧
      verify_note (as_bytes signed_note) v = .ok ['a', '\n'] ∧
      (∀ t, verify_note (as_bytes signed_note) v = .ok t →
        ∃ n, Open (as_bytes signed_note) (VerifierList [go_verifier v.name v.public_key]) = .ok n ∧
          n.Text = as_bytes t) ∧
      (∀ n, Open (as_bytes signed_note) (VerifierList [go_verifier v.name v.public_key]) = .ok n →
        CanonicalBlobs (as_bytes signed_note) →
        ∃ t, n.Text = as_bytes t ∧ verify_note (as_bytes signed_note) v = .ok t) := by
  obtain ⟨v, hv, _⟩ := @NoteVerifierKey.new_eq_ok _ ['a'] zero_public_key (by decide +kernel)
  have hsign : sign_note ['a', '\n'] ['a'] zero_identity = .ok signed_note := by decide +kernel
  exact ⟨v, hv, verify_note_sign_note hsign (List.forall_mem_singleton.mpr rfl) hv,
    verify_note_agrees_with_go (as_bytes signed_note) v (by decide +kernel)⟩

end

section Reverify

variable [Sha2] [Ed25519Dalek] [Base64] [StandardBase64]

/-- An emitted note re-verifies, here and under Go, exactly when no character of its name
is below the space: `validate_note_name` lets control characters through that are not
whitespace, and both parsers reject them anywhere in a note. -/
theorem sign_note_reverifies_iff [GenuineEd25519] (body name : Str) (identity : Ed25519Identity)
    (note : Str) (hsign : sign_note body name identity = .ok note) :
    (∃ v, NoteVerifierKey.new name identity.public_key_bytes = .ok v ∧
      verify_note (as_bytes note) v = .ok body ∧
      ∃ n, Open (as_bytes note) (VerifierList [go_verifier name identity.public_key_bytes]) = .ok n ∧
        n.Text = as_bytes body) ↔
    ∀ c ∈ name, ' ' ≤ c := by
  obtain ⟨_, line, rfl, _, _, rfl, _⟩ := sign_note_eq_ok_iff.mp hsign
  rw [← note_name_control_free_iff line.name_valid]
  constructor
  · rintro ⟨v, _, hverify, _⟩
    obtain ⟨lines, hparse, _⟩ := verify_note_eq_ok_iff.mp hverify
    obtain ⟨htext, _, _, _, _, hcontrols⟩ := parse_note_eq_ok_iff.mp hparse
    rw [← as_bytes_injective htext] at hcontrols
    exact (note_text_control_free_iff.mp hcontrols).2
  · intro h
    obtain ⟨v, hv, hname, hkey⟩ :=
      @NoteVerifierKey.new_eq_ok _ line.name identity.public_key_bytes line.name_valid
    have hverify := verify_note_sign_note hsign h hv
    refine ⟨v, hv, hverify, ?_⟩
    rw [← hname, ← hkey]
    exact exists_open_eq_ok_of_verify_note hverify

end Reverify

section

open reference

theorem sign_note_reverifies_iff_signed_note :
    sign_note ['a', '\n'] ['a'] zero_identity = .ok signed_note ∧
    ((∃ v, NoteVerifierKey.new ['a'] zero_identity.public_key_bytes = .ok v ∧
      verify_note (as_bytes signed_note) v = .ok ['a', '\n'] ∧
      ∃ n, Open (as_bytes signed_note) (VerifierList [go_verifier ['a'] zero_identity.public_key_bytes]) = .ok n ∧
        n.Text = as_bytes ['a', '\n']) ↔ ∀ c ∈ ['a'], ' ' ≤ c) := by
  have hsign : sign_note ['a', '\n'] ['a'] zero_identity = .ok signed_note := by decide +kernel
  exact ⟨hsign, sign_note_reverifies_iff ['a', '\n'] ['a'] zero_identity signed_note hsign⟩

/-- A name of one control character is signed under and rejected by both parsers. -/
theorem sign_note_control_name :
    ∃ note, sign_note ['a', '\n'] ['\x01'] zero_identity = .ok note ∧
      ¬ ∃ v, NoteVerifierKey.new ['\x01'] zero_identity.public_key_bytes = .ok v ∧
        verify_note (as_bytes note) v = .ok ['a', '\n'] ∧
        ∃ n, Open (as_bytes note) (VerifierList [go_verifier ['\x01'] zero_identity.public_key_bytes]) = .ok n ∧
          n.Text = as_bytes ['a', '\n'] := by
  obtain ⟨note, hsign⟩ : ∃ note, sign_note ['a', '\n'] ['\x01'] zero_identity = .ok note :=
    isOk_iff_exists.mp (by decide +kernel)
  refine ⟨note, hsign, ?_⟩
  rintro ⟨v, _, hverify, _⟩
  obtain ⟨_, line, hname, _, _, rfl, _⟩ := sign_note_eq_ok_iff.mp hsign
  obtain ⟨lines, hparse, _⟩ := verify_note_eq_ok_iff.mp hverify
  obtain ⟨htext, _, _, _, _, hcontrols⟩ := parse_note_eq_ok_iff.mp hparse
  rw [← as_bytes_injective htext] at hcontrols
  have hallowed := (note_text_control_free_iff.mp hcontrols).2 '\x01' (by simp [hname])
  exact absurd hallowed (by decide)

end

end lys
