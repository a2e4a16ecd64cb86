import Lys.Checkpoint.Note
import Lys.Reference

open rust

namespace lys

section Lines

variable [Base64]

/-- The bytes of a note from its body and the lines of its signature block. -/
def note_bytes (body : Str) (lines : List Str) : Bytes := as_bytes (body ++ '\n' :: join_lines '\n' lines)

/-- A line that parses and has no control characters. -/
def WellFormedLine (line : Str) : Prop :=
  (parse_signature_line line).isOk = true ∧ ∀ c ∈ line, is_forbidden_control c = false

variable [Sha2]

/-- Whether a line parses to one of the verifier's. -/
def NoteVerifierKey.owns_line (verifier : NoteVerifierKey) (line : Str) : Bool :=
  (parse_signature_line line).toOption.any verifier.owns

/-- One edit of a signature block: a foreign line comes, goes or changes places, or any line
comes behind one of the verifier's. -/
inductive CosignatureEdit (verifier : NoteVerifierKey) : List Str → List Str → Prop where
  | insert (front back : List Str) (line : Str) (hline : WellFormedLine line)
      (hforeign : verifier.owns_line line = false) : CosignatureEdit verifier (front ++ back) (front ++ line :: back)
  | remove (front back : List Str) (line : Str) (hforeign : verifier.owns_line line = false) :
      CosignatureEdit verifier (front ++ line :: back) (front ++ back)
  | swap (front back : List Str) (a b : Str) (hforeign : verifier.owns_line a = false ∨ verifier.owns_line b = false) :
      CosignatureEdit verifier (front ++ a :: b :: back) (front ++ b :: a :: back)
  | append (front back : List Str) (line : Str) (hline : WellFormedLine line)
      (hfirst : front.any verifier.owns_line = true) : CosignatureEdit verifier (front ++ back) (front ++ line :: back)

/-- Any number of edits. -/
def CosignatureEdits (verifier : NoteVerifierKey) : List Str → List Str → Prop :=
  Relation.ReflTransGen (CosignatureEdit verifier)

variable {verifier : NoteVerifierKey} {lines lines' : List Str}

/-- An edit brings no malformed line. -/
theorem CosignatureEdit.wellFormed (h : CosignatureEdit verifier lines lines')
    (hlines : ∀ line ∈ lines, WellFormedLine line) : ∀ line ∈ lines', WellFormedLine line := by
  cases h with
  | insert front back line hline =>
    simp only [List.forall_mem_append, List.forall_mem_cons] at hlines ⊢
    exact ⟨hlines.1, hline, hlines.2⟩
  | remove front back line =>
    simp only [List.forall_mem_append, List.forall_mem_cons] at hlines ⊢
    exact ⟨hlines.1, hlines.2.2⟩
  | swap front back a b =>
    simp only [List.forall_mem_append, List.forall_mem_cons] at hlines ⊢
    exact ⟨hlines.1, hlines.2.2.1, hlines.2.1, hlines.2.2.2⟩
  | append front back line hline =>
    simp only [List.forall_mem_append, List.forall_mem_cons] at hlines ⊢
    exact ⟨hlines.1, hline, hlines.2⟩

/-- An edit leaves the verifier's first line the first one. -/
theorem CosignatureEdit.find?_eq (h : CosignatureEdit verifier lines lines') :
    lines'.find? verifier.owns_line = lines.find? verifier.owns_line := by
  cases h with
  | insert front back line _ hforeign =>
    rw [List.find?_append, List.find?_append, List.find?_cons_of_neg (by simp [hforeign])]
  | remove front back line hforeign =>
    rw [List.find?_append, List.find?_append, List.find?_cons_of_neg (by simp [hforeign])]
  | swap front back a b hforeign =>
    rw [List.find?_append, List.find?_append]
    congr 1
    obtain ha | hb := hforeign
    · simp only [List.find?_cons, ha]
    · simp only [List.find?_cons, hb]
  | append front back line _ hfirst =>
    obtain ⟨first, hfind⟩ := Option.isSome_iff_exists.mp (List.find?_isSome.mpr (List.any_eq_true.mp hfirst))
    rw [List.find?_append, List.find?_append, hfind]
    rfl

theorem CosignatureEdits.wellFormed (h : CosignatureEdits verifier lines lines')
    (hlines : ∀ line ∈ lines, WellFormedLine line) : ∀ line ∈ lines', WellFormedLine line := by
  induction h with
  | refl => exact hlines
  | tail _ hedit ih => exact hedit.wellFormed ih

theorem CosignatureEdits.find?_eq (h : CosignatureEdits verifier lines lines') :
    lines'.find? verifier.owns_line = lines.find? verifier.owns_line := by
  induction h with
  | refl => rfl
  | tail _ hedit ih => rw [hedit.find?_eq, ih]

end Lines

/-- A text is split at its last blank line in one way. -/
theorem blank_line_split_unique {body body' : Str} {lines lines' : List Str} (hend : body.getLast? = some '\n')
    (hend' : body'.getLast? = some '\n') (hlines : ∀ line ∈ lines, line ≠ [] ∧ '\n' ∉ line)
    (hlines' : ∀ line ∈ lines', line ≠ [] ∧ '\n' ∉ line) (hne : lines ≠ []) (hne' : lines' ≠ [])
    (h : body ++ '\n' :: join_lines '\n' lines = body' ++ '\n' :: join_lines '\n' lines') :
    body = body' ∧ lines = lines' := by
  have hposition : ∀ {body : Str} {lines : List Str}, body.getLast? = some '\n' →
      (∀ line ∈ lines, line ≠ [] ∧ '\n' ∉ line) →
      rfind ['\n', '\n'] (body ++ '\n' :: join_lines '\n' lines) = some (body.length - 1) := by
    intro body lines hend hlines
    obtain ⟨front, rfl⟩ := List.getLast?_eq_some_iff.mp hend
    rw [rfind_eq_some_iff (by simp)]
    refine ⟨front, join_lines '\n' lines, by simp, by simp, ?_⟩
    exact not_infix_join_lines (fun hmem => (hlines [] hmem).1 rfl) fun line hline => (hlines line hline).2
  have hpos : ∀ {body : Str}, body.getLast? = some '\n' → 0 < body.length := by
    intro body hend
    obtain ⟨front, rfl⟩ := List.getLast?_eq_some_iff.mp hend
    simp
  have hsplit := hposition hend hlines
  rw [h, hposition hend' hlines'] at hsplit
  have hlength : body.length = body'.length := by
    have hbody := hpos hend
    have hbody' := hpos hend'
    have hsame := Option.some.inj hsplit
    omega
  obtain ⟨hbody, hblock⟩ := List.append_inj h hlength
  refine ⟨hbody, ?_⟩
  have hsplitLines := split_lines_join_lines hne fun line hline => (hlines line hline).2
  rw [(List.cons.inj hblock).2] at hsplitLines
  rw [← hsplitLines]
  exact split_lines_join_lines hne' fun line hline => (hlines' line hline).2

section Verify

variable [Sha2] [Ed25519Dalek] [Base64] [StandardBase64] {verifier : NoteVerifierKey}

omit [Ed25519Dalek] in
theorem owns_line_to_text (line : SignatureLine) : verifier.owns_line line.to_text = verifier.owns line := by
  rw [NoteVerifierKey.owns_line, parse_signature_line_eq_ok_iff.mpr rfl]
  rfl

omit [Ed25519Dalek] in
theorem find?_map_to_text (parsed : List SignatureLine) :
    (parsed.map SignatureLine.to_text).find? verifier.owns_line = (parsed.find? verifier.owns).map SignatureLine.to_text := by
  rw [List.find?_map]
  congr 2
  exact funext owns_line_to_text

omit [Sha2] [Ed25519Dalek] in
/-- Well-formed lines are the texts of what they parse to. -/
theorem exists_map_to_text {lines : List Str} (h : ∀ line ∈ lines, WellFormedLine line) :
    ∃ parsed : List SignatureLine, lines = parsed.map SignatureLine.to_text := by
  induction lines with
  | nil => exact ⟨[], rfl⟩
  | cons line lines ih =>
    rw [List.forall_mem_cons] at h
    obtain ⟨parsed, rfl⟩ := ih h.2
    obtain ⟨first, hfirst⟩ := isOk_iff_exists.mp h.1.1
    exact ⟨first :: parsed, by rw [parse_signature_line_eq_ok_iff.mp hfirst, List.map_cons]⟩

/-- The verifier accepts a line's signature of a body. -/
def Accepts (verifier : NoteVerifierKey) (body line : Str) : Prop :=
  ∃ parsed, parse_signature_line line = .ok parsed ∧
    Ed25519Identity.verify verifier.public_key (as_bytes body) parsed.signature = .ok ()

/-- A note is accepted for its well-formed lines and the verifier's first one. -/
theorem verify_note_bytes_iff {body text : Str} {lines : List Str} (hend : body.getLast? = some '\n')
    (hne : lines ≠ []) (hlines : ∀ line ∈ lines, line ≠ [] ∧ '\n' ∉ line) :
    verify_note (note_bytes body lines) verifier = .ok text ↔ text = body ∧
      (note_bytes body lines).length ≤ MAX_NOTE_BYTES ∧ lines.length ≤ MAX_SIGNATURE_LINES ∧
      (∀ c ∈ body, is_forbidden_control c = false) ∧ (∀ line ∈ lines, WellFormedLine line) ∧
      ∃ first, lines.find? verifier.owns_line = some first ∧ Accepts verifier body first := by
  have hcontrols : ∀ lines : List Str, (∀ c ∈ body ++ '\n' :: join_lines '\n' lines, is_forbidden_control c = false) ↔
      (∀ c ∈ body, is_forbidden_control c = false) ∧ ∀ line ∈ lines, ∀ c ∈ line, is_forbidden_control c = false := by
    intro lines
    have hnewline : is_forbidden_control '\n' = false := by decide
    rw [List.forall_mem_append, List.forall_mem_cons]
    refine and_congr_right fun _ => ⟨fun h line hline c hc => h.2 c ?_, fun h => ⟨hnewline, fun c hc => ?_⟩⟩
    · exact List.mem_flatMap.mpr ⟨line, hline, List.mem_append_left _ hc⟩
    · obtain ⟨line, hline, hc⟩ := List.mem_flatMap.mp hc
      obtain hc | hc := List.mem_append.mp hc
      · exact h line hline c hc
      · rw [List.mem_singleton.mp hc, hnewline]
  simp only [verify_note_eq_ok_iff, parse_note_eq_ok_iff]
  constructor
  · rintro ⟨parsed, ⟨hbytes, hsize, hparsedNe, hcount, hparsedEnd, hfree⟩, first, hfirst, hverify⟩
    have htext := as_bytes_injective hbytes
    rw [note_text] at htext
    obtain ⟨rfl, rfl⟩ := blank_line_split_unique hend hparsedEnd hlines
      (by simpa using fun line _ => line.not_mem_to_text) hne (by simpa using hparsedNe) htext
    rw [note_text, hcontrols] at hfree
    refine ⟨rfl, hsize, by simpa using hcount, hfree.1, ?_, first.to_text, ?_, first, ?_, hverify⟩
    · intro line hline
      obtain ⟨signature, _, rfl⟩ := List.mem_map.mp hline
      exact ⟨by rw [parse_signature_line_eq_ok_iff.mpr rfl]; rfl, hfree.2 _ hline⟩
    · rw [find?_map_to_text, hfirst, Option.map_some]
    · rw [parse_signature_line_eq_ok_iff]
  · rintro ⟨rfl, hsize, hcount, hfree, hwell, first, hfirst, hverify⟩
    obtain ⟨parsed, rfl⟩ := exists_map_to_text hwell
    rw [find?_map_to_text, Option.map_eq_some_iff] at hfirst
    obtain ⟨line, hline, rfl⟩ := hfirst
    obtain ⟨read, hread, hverify⟩ := hverify
    obtain rfl : line = read := Except.ok.inj ((parse_signature_line_eq_ok_iff.mpr rfl).symm.trans hread)
    refine ⟨parsed, ⟨rfl, hsize, by simpa using hne, by simpa using hcount, hend, ?_⟩, line, hline, hverify⟩
    rw [note_text, hcontrols]
    exact ⟨hfree, fun line hline => (hwell line hline).2⟩

omit [Sha2] [Ed25519Dalek] in
/-- Well-formed lines can stand in a signature block. -/
theorem WellFormedLine.closed {line : Str} (h : WellFormedLine line) : line ≠ [] ∧ '\n' ∉ line := by
  obtain ⟨parsed, hparsed⟩ := isOk_iff_exists.mp h.1
  rw [parse_signature_line_eq_ok_iff.mp hparsed]
  exact parsed.not_mem_to_text

omit [Ed25519Dalek] in
theorem CosignatureEdit.closed {lines lines' : List Str} (h : CosignatureEdit verifier lines lines')
    (hlines : ∀ line ∈ lines, line ≠ [] ∧ '\n' ∉ line) : ∀ line ∈ lines', line ≠ [] ∧ '\n' ∉ line := by
  cases h with
  | insert front back line hline =>
    simp only [List.forall_mem_append, List.forall_mem_cons] at hlines ⊢
    exact ⟨hlines.1, hline.closed, hlines.2⟩
  | remove front back line =>
    simp only [List.forall_mem_append, List.forall_mem_cons] at hlines ⊢
    exact ⟨hlines.1, hlines.2.2⟩
  | swap front back a b =>
    simp only [List.forall_mem_append, List.forall_mem_cons] at hlines ⊢
    exact ⟨hlines.1, hlines.2.2.1, hlines.2.1, hlines.2.2.2⟩
  | append front back line hline =>
    simp only [List.forall_mem_append, List.forall_mem_cons] at hlines ⊢
    exact ⟨hlines.1, hline.closed, hlines.2⟩

omit [Ed25519Dalek] in
theorem CosignatureEdits.closed {lines lines' : List Str} (h : CosignatureEdits verifier lines lines')
    (hlines : ∀ line ∈ lines, line ≠ [] ∧ '\n' ∉ line) : ∀ line ∈ lines', line ≠ [] ∧ '\n' ∉ line := by
  induction h with
  | refl => exact hlines
  | tail _ hedit ih => exact hedit.closed ih

/-- Foreign co-signatures never change the verdict. An accepted note has a signature block of
closed lines, and is accepted with the same text after any edits of the block that stay within
the limits; a note whose deciding line fails is rejected after any edits. -/
theorem foreign_cosignatures_keep_verdict (verifier : NoteVerifierKey) :
    (∀ msg text, verify_note msg verifier = .ok text → ∃ lines, msg = note_bytes text lines ∧
      text.getLast? = some '\n' ∧ lines ≠ [] ∧ ∀ line ∈ lines, line ≠ [] ∧ '\n' ∉ line) ∧
    ∀ body lines lines', body.getLast? = some '\n' → lines ≠ [] → (∀ line ∈ lines, line ≠ [] ∧ '\n' ∉ line) →
      CosignatureEdits verifier lines lines' →
      (∀ text, verify_note (note_bytes body lines) verifier = .ok text → lines'.length ≤ 100 →
        (note_bytes body lines').length ≤ 2 ^ 20 → verify_note (note_bytes body lines') verifier = .ok text) ∧
      ∀ first, lines.find? verifier.owns_line = some first → ¬ Accepts verifier body first →
        ∀ text, verify_note (note_bytes body lines) verifier ≠ .ok text ∧
          verify_note (note_bytes body lines') verifier ≠ .ok text := by
  constructor
  · intro msg text h
    obtain ⟨parsed, hparse, _⟩ := verify_note_eq_ok_iff.mp h
    obtain ⟨hbytes, _, hne, _, hend, _⟩ := parse_note_eq_ok_iff.mp hparse
    exact ⟨parsed.map SignatureLine.to_text, hbytes, hend, by simpa using hne,
      by simpa using fun line _ => line.not_mem_to_text⟩
  · intro body lines lines' hend hne hclosed hedits
    have hfind := hedits.find?_eq
    have hclosed' := hedits.closed hclosed
    have hne' : ∀ first, lines.find? verifier.owns_line = some first → lines' ≠ [] := by
      rintro first hfirst rfl
      rw [hfirst] at hfind
      cases hfind
    constructor
    · intro text haccepted hcount hsize
      obtain ⟨rfl, _, _, hfree, hwell, first, hfirst, hverify⟩ := (verify_note_bytes_iff hend hne hclosed).mp haccepted
      rw [verify_note_bytes_iff hend (hne' first hfirst) hclosed']
      exact ⟨rfl, hsize, hcount, hfree, hedits.wellFormed hwell, first, hfind.trans hfirst, hverify⟩
    · intro first hfirst hfails text
      have hreject : ∀ {lines'' : List Str}, lines'' ≠ [] → (∀ line ∈ lines'', line ≠ [] ∧ '\n' ∉ line) →
          lines''.find? verifier.owns_line = some first → verify_note (note_bytes body lines'') verifier ≠ .ok text := by
        intro lines'' hne'' hclosed'' hfirst'' haccepted
        obtain ⟨_, _, _, _, _, decides, hdecides, hverify⟩ := (verify_note_bytes_iff hend hne'' hclosed'').mp haccepted
        obtain rfl : first = decides := Option.some.inj (hfirst''.symm.trans hdecides)
        exact hfails hverify
      exact ⟨hreject hne hclosed hfirst, hreject (hne' first hfirst) hclosed' (hfind.trans hfirst)⟩

end Verify

section

open reference

/-- The zero seed's key under the name "a". -/
def a_key : NoteVerifierKey := ⟨['a'], of_hex 4 0xf42caaea, zero_public_key, by decide +kernel⟩

/-- Its signature line of the body "a". -/
def a_line : Str := SIG_PREFIX ++
  "a 9Cyq6jJ66nINLhjfu4+YXgu3hiKWZZKd5zlNfEmxSiAeDB86ihDiflOI5ZtyCwj4lssfASCaXLB7MixQ9BjlFIWrLQM=".toList

/-- A line under another name. -/
def b_line : Str := SIG_PREFIX ++ "b AAAAAAA=".toList

theorem foreign_cosignatures_keep_verdict_line_before :
    verify_note (note_bytes ['a', '\n'] [a_line]) a_key = .ok ['a', '\n'] ∧
      verify_note (note_bytes ['a', '\n'] [b_line, a_line]) a_key = .ok ['a', '\n'] := by
  have haccepted : verify_note (note_bytes ['a', '\n'] [a_line]) a_key = .ok ['a', '\n'] := by decide +kernel
  have hfree : b_line.any is_forbidden_control = false := by decide +kernel
  have hinsert : CosignatureEdit a_key [a_line] [b_line, a_line] :=
    .insert [] [a_line] b_line ⟨by decide +kernel, by simpa using hfree⟩ (by decide +kernel)
  have hverdict := (foreign_cosignatures_keep_verdict a_key).2 ['a', '\n'] [a_line] [b_line, a_line] (by decide)
    (by decide) (by decide +kernel) (.single hinsert)
  exact ⟨haccepted, hverdict.1 _ haccepted (by decide) (by decide +kernel)⟩

end

end lys
