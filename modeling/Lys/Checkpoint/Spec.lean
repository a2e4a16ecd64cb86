import Lys.Checkpoint.Body
import Lys.RustStd.Hex

open rust

namespace lys

/-- Parses eight hex characters of either case into a big-endian key ID. -/
def parse_key_id_hex (hex_id : Str) : TrustResult (U8Array 4) := do
  reject_if ((as_bytes hex_id).length ≠ 8 ∨ ¬ hex_id.all is_ascii_hexdigit)
    (.VerifierKey "key ID must be exactly 8 hex characters")
  let value ← (u32_from_str_radix_16 hex_id).mapError fun e => .VerifierKey s!"key ID is not valid hex: {e}"
  return ⟨to_be_bytes 4 value.toNat, length_to_be_bytes 4 _⟩

/-- The Ed25519 key of a decoded key part: an algorithm byte, then 32 bytes. -/
def split_key_bytes (key_bytes : Bytes) : TrustResult (U8Array 32) :=
  match key_bytes with
  | alg :: public_key_slice =>
    if h : public_key_slice.length = 32 then do
      reject_if (alg ≠ 0x01)
        (.VerifierKey s!"unsupported algorithm byte 0x{String.ofList (hex_lower [alg])}, expected 0x01 (Ed25519)")
      return ⟨public_key_slice, h⟩
    else .error (.VerifierKey ("key part must decode to 33 bytes (algorithm byte + 32-byte public key), " ++
      s!"got {key_bytes.length}"))
  | [] => .error (.VerifierKey ("key part must decode to 33 bytes (algorithm byte + 32-byte public key), " ++
      s!"got {key_bytes.length}"))

namespace NoteVerifierKey

variable [Sha2] [Base64]

/-- Parses the text form `<name>+<hex keyid>+<base64(0x01 ‖ pubkey)>`. -/
def from_spec (spec : Str) : TrustResult NoteVerifierKey :=
  match splitn '+' 3 spec with
  | [name, hex_id, key_b64] => do
    validate_note_name name
    let declared_id ← parse_key_id_hex hex_id
    let key_bytes ← (Base64.decode key_b64).mapError fun e =>
      .VerifierKey s!"key part is not canonical standard base64: {e}"
    let public_key ← split_key_bytes key_bytes
    match h : lys.key_id name public_key with
    | .error e => .error e
    | .ok computed_id => do
      reject_if (declared_id ≠ computed_id) (.VerifierKey ("declared key ID does not match the key ID computed from " ++
        "the name and public key"))
      return ⟨name, computed_id, public_key, h⟩
  | _ => .error (.VerifierKey "expected <name>+<hex keyid>+<base64 key>")

/-- The text form, with a lowercase key ID. -/
def to_spec (key : NoteVerifierKey) : Str :=
  key.name ++ ['+'] ++ hex_lower key.key_id.as_slice ++ ['+'] ++ Base64.encode (0x01 :: key.public_key.as_slice)

end NoteVerifierKey

/-- A key ID is parsed from eight hex digits that write its bytes. -/
theorem parse_key_id_hex_eq_ok_iff {hex_id : Str} {id : U8Array 4} : parse_key_id_hex hex_id = .ok id ↔
    hex_id.length = 8 ∧ hex_id.all is_ascii_hexdigit = true ∧ id.as_slice = hex_bytes hex_id := by
  have hdigits : hex_id.length = 8 → hex_id.all is_ascii_hexdigit = true →
      u32_from_str_radix_16 hex_id = .ok (UInt32.ofNat (hex_number hex_id)) ∧
        to_be_bytes 4 (UInt32.ofNat (hex_number hex_id)).toNat = hex_bytes hex_id := by
    intro hlength hall
    have heven : 2 ∣ hex_id.length := by omega
    have hbytes : (hex_bytes hex_id).length = 4 := by rw [length_hex_bytes, hlength]
    have hbound := from_be_bytes_lt (hex_bytes hex_id)
    rw [hbytes, from_be_bytes_hex_bytes heven hall] at hbound
    have hne : hex_id ≠ [] := List.ne_nil_of_length_eq_add_one hlength
    have hvalue := to_be_bytes_from_be_bytes (hex_bytes hex_id)
    rw [hbytes, from_be_bytes_hex_bytes heven hall] at hvalue
    replace hbound : hex_number hex_id < 2 ^ 32 := hbound
    rw [u32_from_str_radix_16_digits hne hall, if_pos hbound, UInt32.toNat_ofNat', Nat.mod_eq_of_lt hbound]
    exact ⟨rfl, hvalue⟩
  have hascii : hex_id.all is_ascii_hexdigit = true → (as_bytes hex_id).length = hex_id.length := fun hall =>
    length_as_bytes_ascii fun c hc => (toNat_of_is_ascii_hexdigit (List.all_eq_true.mp hall c hc)).2
  simp only [parse_key_id_hex, bind_eq_ok_iff, reject_if_eq_ok_iff, mapError_eq_ok_iff, pure_eq_ok_iff, not_or, ne_eq,
    not_not]
  constructor
  · rintro ⟨_, ⟨hlength, hall⟩, value, hvalue, hid⟩
    rw [hascii hall] at hlength
    obtain ⟨hparse, hbytes⟩ := hdigits hlength hall
    rw [hparse] at hvalue
    obtain rfl := Except.ok.inj hvalue
    subst hid
    exact ⟨hlength, hall, hbytes⟩
  · rintro ⟨hlength, hall, hid⟩
    obtain ⟨hparse, hbytes⟩ := hdigits hlength hall
    refine ⟨(), ⟨by rw [hascii hall, hlength], hall⟩, _, hparse, U8Array.ext ?_⟩
    rw [hid, ← hbytes]

theorem split_key_bytes_eq_ok_iff {key_bytes : Bytes} {public_key : U8Array 32} :
    split_key_bytes key_bytes = .ok public_key ↔ key_bytes = 0x01 :: public_key.as_slice := by
  unfold split_key_bytes
  split
  next alg public_key_slice =>
    split
    next h =>
      simp only [bind_eq_ok_iff, reject_if_eq_ok_iff, pure_eq_ok_iff, ne_eq, not_not, List.cons.injEq]
      constructor
      · rintro ⟨_, halg, rfl⟩
        exact ⟨halg, rfl⟩
      · rintro ⟨halg, rfl⟩
        exact ⟨(), halg, rfl⟩
    next h =>
      constructor
      · intro herror
        cases herror
      · intro hkey
        obtain ⟨_, rfl⟩ := List.cons.inj hkey
        exact absurd public_key.length_eq h
  next => simp

section Base64

variable [Sha2] [Base64] [StandardBase64]

namespace NoteVerifierKey

/-- A spec parses to the key whose name, key ID in eight hex digits of either case and encoded
key it joins with pluses. -/
theorem from_spec_eq_ok_iff {spec : Str} {key : NoteVerifierKey} :
    from_spec spec = .ok key ↔ ∃ hex_id, hex_id.length = 8 ∧ hex_id.all is_ascii_hexdigit = true ∧
      key.key_id.as_slice = hex_bytes hex_id ∧
      spec = key.name ++ '+' :: (hex_id ++ '+' :: Base64.encode (0x01 :: key.public_key.as_slice)) := by
  have hplus : ∀ hex_id : Str, hex_id.all is_ascii_hexdigit = true → '+' ∉ hex_id := by
    intro hex_id hall hmem
    have hdigit := List.all_eq_true.mp hall '+' hmem
    revert hdigit
    decide
  unfold from_spec
  constructor
  · intro h
    split at h
    next name hex_id key_b64 hparts =>
      obtain ⟨rfl, _, _⟩ := splitn_three_eq_iff.mp hparts
      simp only [bind_eq_ok_iff, mapError_eq_ok_iff, parse_key_id_hex_eq_ok_iff, StandardBase64.decode_eq_ok_iff,
        split_key_bytes_eq_ok_iff] at h
      obtain ⟨_, _, declared_id, ⟨hlength, hall, hdeclared⟩, _, rfl, public_key, rfl, h⟩ := h
      split at h
      next => cases h
      next computed_id hcomputed =>
        simp only [bind_eq_ok_iff, reject_if_eq_ok_iff, pure_eq_ok_iff, ne_eq, not_not] at h
        obtain ⟨_, rfl, rfl⟩ := h
        exact ⟨hex_id, hlength, hall, hdeclared, by rw [StandardBase64.encode_eq]⟩
    next => cases h
  · rintro ⟨hex_id, hlength, hall, hid, rfl⟩
    have hname := key.name_valid
    rw [splitn_three_eq_iff.mpr ⟨rfl, (validate_note_name_eq_ok_iff.mp hname).2.2, hplus hex_id hall⟩]
    simp only [bind_eq_ok_iff, mapError_eq_ok_iff, parse_key_id_hex_eq_ok_iff, StandardBase64.decode_eq_ok_iff,
      split_key_bytes_eq_ok_iff]
    refine ⟨(), hname, key.key_id, ⟨hlength, hall, hid⟩, _, StandardBase64.encode_eq _, key.public_key, rfl, ?_⟩
    split
    next e hcomputed =>
      rw [key.key_id_eq] at hcomputed
      cases hcomputed
    next computed_id hcomputed =>
      obtain rfl : key.key_id = computed_id := Except.ok.inj (key.key_id_eq.symm.trans hcomputed)
      simp

/-- Every key is parsed from its own text form. -/
theorem from_spec_to_spec (key : NoteVerifierKey) : from_spec key.to_spec = .ok key := by
  refine from_spec_eq_ok_iff.mpr ⟨hex_lower key.key_id.as_slice, ?_, ?_, ?_, ?_⟩
  · rw [length_hex_lower, key.key_id.length_eq]
  · exact List.all_eq_true.mpr fun c hc => is_ascii_hexdigit_of_mem_hex_lower hc
  · rw [hex_bytes_hex_lower]
  · simp [to_spec]

omit [Base64] [StandardBase64] in
theorem new_name_public_key (key : NoteVerifierKey) : new key.name key.public_key = .ok key := by
  unfold new
  split
  next id h =>
    obtain rfl : key.key_id = id := Except.ok.inj (key.key_id_eq.symm.trans h)
    rfl
  next e h =>
    rw [key.key_id_eq] at h
    cases h

end NoteVerifierKey

end Base64

end lys
