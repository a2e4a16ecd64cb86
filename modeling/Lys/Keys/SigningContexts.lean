import Lys.Attestation.Sign
import Lys.Checkpoint.Note
import Lys.X690.Der

open rust

namespace lys

/-- What an identity signs. -/
inductive SigningContext where
  | attestation
  | note
  | certificate
deriving DecidableEq

/-- A note body has valid UTF-8 bytes, no control character but the newline, and at most
the size of a note. -/
theorem parse_note_body [Base64] {note_bytes : Bytes} {body : Str} {lines : List SignatureLine}
    (h : parse_note note_bytes = .ok (body, lines)) :
    (∀ c ∈ body, is_forbidden_control c = false) ∧ (as_bytes body).length ≤ MAX_NOTE_BYTES := by
  simp only [parse_note, bind_eq_ok_iff, reject_if_eq_ok_iff, ok_or_eq_ok_iff, from_utf8_eq_some_iff,
    gt_iff_lt, not_lt, pure_eq_ok_iff, Prod.mk.injEq] at h
  obtain ⟨_, hsize, text, rfl, _, hcontrols, split, _, _, _, _, _, rfl, _⟩ := h
  have hcontrols : ∀ c ∈ text, is_forbidden_control c = false := by simpa using hcontrols
  refine ⟨fun c hc => hcontrols c (List.mem_of_mem_take hc), ?_⟩
  have htext : as_bytes text = as_bytes (text.take (split + 1)) ++ as_bytes (text.drop (split + 1)) := by
    rw [← as_bytes_append, List.take_append_drop]
  rw [htext, List.length_append] at hsize
  omega

/-- A `Sig_structure` starts with the head of an array of four. -/
theorem sig_structure_bytes_eq_cons (protectedPart claims : Bytes) :
    ∃ rest, sig_structure_bytes protectedPart claims = 0x84 :: rest := ⟨_, rfl⟩

/-- A character number above 31, or the newline, is what a body's ASCII bytes are. -/
theorem ascii_byte_of_control_free {body : Str} {b : UInt8} (hb : b.toNat < 128)
    (hcontrols : ∀ c ∈ body, is_forbidden_control c = false) (h : b ∈ as_bytes body) :
    b = 10 ∨ 32 ≤ b.toNat := by
  have hchar : (Char.ofNat b.toNat).toNat = b.toNat := by
    rw [Char.toNat_ofNat, if_pos (.inl (by omega))]
  have hbyte : UInt8.ofNat (Char.ofNat b.toNat).toNat = b := by rw [hchar, UInt8.ofNat_toNat]
  rw [← hbyte, mem_as_bytes_ascii_iff (by omega)] at h
  have hcontrol := hcontrols _ h
  simp only [is_forbidden_control, Bool.and_eq_false_iff, decide_eq_false_iff_not] at hcontrol
  obtain hlarge | hnewline := hcontrol
  · right
    rw [Char.lt_def, UInt32.lt_iff_toNat_lt] at hlarge
    have : ¬ (Char.ofNat b.toNat).toNat < 32 := hlarge
    omega
  · left
    have : Char.ofNat b.toNat = '\n' := by simpa using hnewline
    rw [← hbyte, this]
    rfl

section Bodies

variable [Sha2] [Base64] [Ed25519Dalek]

/-- The bodies that some identity signs or some verifier returns. -/
def IsNoteBody (body : Str) : Prop :=
  (∃ name identity note, sign_note body name identity = .ok note) ∨
    ∃ note_bytes verifier, verify_note note_bytes verifier = .ok body

theorem IsNoteBody.bounds {body : Str} (h : IsNoteBody body) :
    (∀ c ∈ body, is_forbidden_control c = false) ∧ (as_bytes body).length ≤ MAX_NOTE_BYTES := by
  obtain ⟨name, identity, note, hsign⟩ | ⟨note_bytes, verifier, hverify⟩ := h
  · obtain ⟨⟨_, _, hcontrols⟩, line, _, _, _, rfl, hsize⟩ := sign_note_eq_ok_iff.mp hsign
    refine ⟨hcontrols, ?_⟩
    rw [note_text, as_bytes_append, List.length_append] at hsize
    omega
  · obtain ⟨lines, hparse, _⟩ := verify_note_eq_ok_iff.mp hverify
    exact parse_note_body hparse

/-- The messages of each context: the `Sig_structure`s of attestations, the bodies of
notes, and the `TBSCertificate`s, a DER `SEQUENCE` whose first element is the version field
`[0]` or the serial number. -/
def signed_messages : SigningContext → Set Bytes
  | .attestation => { message | ∃ key hash timestamp,
      message = sig_structure_bytes (protected_bytes key) (claims_bytes hash timestamp) }
  | .note => { message | ∃ body, IsNoteBody body ∧ message = as_bytes body }
  | .certificate => { message | ∃ tag contents rest, (tag = x690.CONTEXT_0 ∨ tag = x690.INTEGER) ∧
      message = x690.encode_element x690.SEQUENCE (x690.encode_element tag contents ++ rest) }

/-- A body that starts like a `SEQUENCE` goes on with neither element of a certificate:
the length octet is no leading byte, or the tag behind it is none or a control character. -/
theorem as_bytes_ne_certificate {body : Str} {tag : UInt8} {contents rest : Bytes} (hbody : IsNoteBody body)
    (htag : tag = x690.CONTEXT_0 ∨ tag = x690.INTEGER) :
    as_bytes body ≠ x690.encode_element x690.SEQUENCE (x690.encode_element tag contents ++ rest) := by
  intro h
  obtain ⟨hcontrols, hsize⟩ := hbody.bounds
  have hcap : MAX_NOTE_BYTES < 2 ^ 24 := by decide
  have hlength := congrArg List.length h
  rw [x690.encode_element, List.length_cons, List.length_append] at hlength
  obtain ⟨front, hfront, hlengthBytes⟩ := exists_of_as_bytes_eq_cons (by decide) h
  obtain ⟨hshort, hform⟩ | ⟨count, octets, hpos, hcount, hform⟩ :=
    @x690.encode_length_eq_cons (x690.encode_element tag contents ++ rest).length (by omega)
  · have hsmall : (UInt8.ofNat (x690.encode_element tag contents ++ rest).length).toNat < 128 := by
      rw [UInt8.toNat_ofNat']
      omega
    rw [hform, List.singleton_append] at hlengthBytes
    obtain ⟨inner, hinner, htagBytes⟩ := exists_of_as_bytes_eq_cons hsmall hlengthBytes.symm
    rw [x690.encode_element, List.cons_append] at htagBytes
    obtain rfl | rfl := htag
    · have hlead := not_continuation_of_as_bytes_eq_cons htagBytes.symm
      revert hlead
      decide
    · have hmem : x690.INTEGER ∈ as_bytes inner := by
        rw [← htagBytes]
        exact List.mem_cons_self
      have hinnerControls : ∀ c ∈ inner, is_forbidden_control c = false := fun c hc =>
        hcontrols c (hfront.subset (hinner.subset hc))
      have hbyte := ascii_byte_of_control_free (by decide) hinnerControls hmem
      revert hbyte
      decide
  · rw [hform, List.cons_append] at hlengthBytes
    have hlead := not_continuation_of_as_bytes_eq_cons hlengthBytes.symm
    rw [UInt8.toNat_ofNat'] at hlead
    omega

/-- The `Sig_structure` of an attestation determines its signer, payload hash and timestamp,
and no two contexts of an identity share a message. -/
theorem signing_contexts_disjoint :
    (∀ key hash timestamp key' hash' timestamp',
      sig_structure_bytes (protected_bytes key) (claims_bytes hash timestamp) =
        sig_structure_bytes (protected_bytes key') (claims_bytes hash' timestamp') →
      key = key' ∧ hash = hash' ∧ timestamp = timestamp') ∧
    ∀ context context', context ≠ context' →
      Disjoint (signed_messages context) (signed_messages context') := by
  have hattestationNote : Disjoint (signed_messages .attestation) (signed_messages .note) := by
    rw [Set.disjoint_left]
    rintro message ⟨key, hash, timestamp, rfl⟩ ⟨body, _, hbody⟩
    obtain ⟨rest, hstructure⟩ := sig_structure_bytes_eq_cons (protected_bytes key) (claims_bytes hash timestamp)
    have hlead := not_continuation_of_as_bytes_eq_cons (hbody.symm.trans hstructure)
    revert hlead
    decide
  have hattestationCertificate : Disjoint (signed_messages .attestation) (signed_messages .certificate) := by
    rw [Set.disjoint_left]
    rintro message ⟨key, hash, timestamp, rfl⟩ ⟨tag, contents, rest, _, hcertificate⟩
    obtain ⟨_, hstructure⟩ := sig_structure_bytes_eq_cons (protected_bytes key) (claims_bytes hash timestamp)
    rw [hstructure, x690.encode_element, List.cons.injEq] at hcertificate
    exact absurd hcertificate.1 (by decide)
  have hnoteCertificate : Disjoint (signed_messages .note) (signed_messages .certificate) := by
    rw [Set.disjoint_left]
    rintro message ⟨body, hbody, rfl⟩ ⟨tag, contents, rest, htag, hcertificate⟩
    exact as_bytes_ne_certificate hbody htag hcertificate
  refine ⟨fun _ _ _ _ _ _ => eq_of_sig_structure_bytes_eq, fun context context' hne => ?_⟩
  cases context <;> cases context' <;> first
    | exact absurd rfl hne
    | assumption
    | exact Disjoint.symm (by assumption)

end Bodies

end lys
