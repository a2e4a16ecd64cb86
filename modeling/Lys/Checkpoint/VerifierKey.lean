import Lys.Keys.Identity

open rust

namespace lys

/-- Validates a signed-note key name or checkpoint origin. -/
def validate_note_name (name : Str) : TrustResult Unit := do
  reject_if (name = []) (.VerifierKey "key name must not be empty")
  reject_if (name.any is_whitespace) (.VerifierKey "key name must not contain whitespace")
  reject_if ('+' ∈ name) (.VerifierKey "key name must not contain '+'")

theorem validate_note_name_eq_ok_iff {name : Str} :
    validate_note_name name = .ok () ↔
      name ≠ [] ∧ (∀ c ∈ name, is_whitespace c = false) ∧ '+' ∉ name := by
  simp [validate_note_name]

section NoteName

variable {name : Str} (hname : validate_note_name name = .ok ())

include hname

theorem note_name_ne_nil : name ≠ [] := (validate_note_name_eq_ok_iff.mp hname).1

theorem newline_not_mem_note_name : '\n' ∉ name := by
  intro h
  have := (validate_note_name_eq_ok_iff.mp hname).2.1 _ h
  revert this
  decide

theorem space_not_mem_note_name : ' ' ∉ name := by
  intro h
  have := (validate_note_name_eq_ok_iff.mp hname).2.1 _ h
  revert this
  decide

end NoteName

variable [Sha2]

/-- The signed-note key ID: the first four bytes of
`SHA-256(name ‖ 0x0A ‖ 0x01 ‖ pubkey)`. -/
def key_id (name : Str) (public_key : U8Array 32) : TrustResult (U8Array 4) := do
  validate_note_name name
  let digest := sha256 (as_bytes name ++ [0x0a] ++ [0x01] ++ public_key.as_slice)
  return digest.first 4 (by decide)

theorem key_id_eq_ok {name : Str} {public_key : U8Array 32} (hname : validate_note_name name = .ok ()) :
    ∃ id, key_id name public_key = .ok id := by
  rw [key_id, hname]
  exact ⟨_, rfl⟩

/-- A parsed note verifier key. Its key ID is the one computed from its name and key. -/
structure NoteVerifierKey where
  name : Str
  key_id : U8Array 4
  public_key : U8Array 32
  key_id_eq : lys.key_id name public_key = .ok key_id

namespace NoteVerifierKey

def new (name : Str) (public_key : U8Array 32) : TrustResult NoteVerifierKey :=
  match h : lys.key_id name public_key with
  | .ok id => .ok ⟨name, id, public_key, h⟩
  | .error e => .error e

theorem name_valid (verifier : NoteVerifierKey) : validate_note_name verifier.name = .ok () := by
  have h := verifier.key_id_eq
  simp only [lys.key_id, bind_eq_ok_iff] at h
  exact h.choose_spec.1

/-- A verifier key is built from any valid name and holds the parts it was given. -/
theorem new_eq_ok {name : Str} {public_key : U8Array 32} (hname : validate_note_name name = .ok ()) :
    ∃ verifier, new name public_key = .ok verifier ∧ verifier.name = name ∧
      verifier.public_key = public_key := by
  unfold new
  split
  next id h => exact ⟨_, rfl, rfl, rfl⟩
  next e h =>
    obtain ⟨id, hid⟩ := @key_id_eq_ok _ name public_key hname
    rw [hid] at h
    cases h

theorem eq_of_new_eq_ok {name : Str} {public_key : U8Array 32} {verifier : NoteVerifierKey}
    (h : new name public_key = .ok verifier) : verifier.name = name ∧ verifier.public_key = public_key := by
  unfold new at h
  split at h
  next => exact Except.ok.inj h ▸ ⟨rfl, rfl⟩
  next => cases h

end NoteVerifierKey

end lys
