import Lys.RustStd.Array

namespace rust

/-- `str::as_bytes`: the UTF-8 encoding. -/
def as_bytes (s : Str) : Bytes := s.flatMap String.utf8EncodeChar

@[simp] theorem as_bytes_nil : as_bytes [] = [] := rfl

@[simp] theorem as_bytes_cons (c : Char) (s : Str) :
    as_bytes (c :: s) = String.utf8EncodeChar c ++ as_bytes s := rfl

@[simp] theorem as_bytes_append (s t : Str) : as_bytes (s ++ t) = as_bytes s ++ as_bytes t :=
  List.flatMap_append

/-- The scalar value encoded at the front of a buffer; `none` when the front is not
the shortest UTF-8 encoding of one. -/
def decode_char? (bytes : Bytes) : Option Char := bytes.toByteArray.utf8DecodeChar? 0

theorem decode_char?_encode_append (c : Char) (rest : Bytes) :
    decode_char? (String.utf8EncodeChar c ++ rest) = some c := by
  rw [decode_char?, List.toByteArray_append]
  exact ByteArray.utf8DecodeChar?_utf8EncodeChar_append

@[simp] theorem decode_char?_nil : decode_char? [] = none := rfl

theorem eq_of_decode_char?_eq_some {bytes : Bytes} {c : Char} (h : decode_char? bytes = some c) :
    bytes = String.utf8EncodeChar c ++ bytes.drop c.utf8Size := by
  have hbytes := congrArg (fun b : ByteArray => b.data.toList) (ByteArray.eq_of_utf8DecodeChar?_eq_some h)
  have hfirst : bytes = String.utf8EncodeChar c ++
      (bytes.toByteArray.extract c.utf8Size bytes.toByteArray.size).data.toList := by
    simpa using hbytes
  have hdrop : bytes.drop c.utf8Size =
      (bytes.toByteArray.extract c.utf8Size bytes.toByteArray.size).data.toList := by
    rw [congrArg (List.drop c.utf8Size) hfirst]
    exact List.drop_left' (String.length_utf8EncodeChar c)
  rw [hdrop]
  exact hfirst

/-- `str::from_utf8`. -/
def from_utf8 (bytes : Bytes) : Option Str :=
  match bytes with
  | [] => some []
  | b :: bs =>
    match decode_char? (b :: bs) with
    | none => none
    | some c => (from_utf8 ((b :: bs).drop c.utf8Size)).map (c :: ·)
termination_by bytes.length
decreasing_by
  have := c.utf8Size_pos
  simp only [List.length_drop, List.length_cons]
  omega

theorem from_utf8_encode_append (c : Char) (rest : Bytes) :
    from_utf8 (String.utf8EncodeChar c ++ rest) = (from_utf8 rest).map (c :: ·) := by
  have hdecode := decode_char?_encode_append c rest
  have hdrop : (String.utf8EncodeChar c ++ rest).drop c.utf8Size = rest :=
    List.drop_left' (String.length_utf8EncodeChar c)
  generalize String.utf8EncodeChar c ++ rest = bytes at hdecode hdrop
  cases bytes with
  | nil => simp at hdecode
  | cons b bs => rw [from_utf8, hdecode]; simp only [hdrop]

/-- Every string is decoded from its own bytes. -/
@[simp] theorem from_utf8_as_bytes (s : Str) : from_utf8 (as_bytes s) = some s := by
  induction s with
  | nil => rw [as_bytes_nil, from_utf8]
  | cons c s ih => rw [as_bytes_cons, from_utf8_encode_append, ih, Option.map_some]

/-- Decoding succeeds exactly on the encoding of its result. -/
theorem from_utf8_eq_some_iff {bytes : Bytes} {s : Str} :
    from_utf8 bytes = some s ↔ bytes = as_bytes s := by
  constructor
  · intro h
    induction s generalizing bytes with
    | nil =>
      cases bytes with
      | nil => rfl
      | cons b bs =>
        rw [from_utf8] at h
        split at h <;> simp at h
    | cons c s ih =>
      cases bytes with
      | nil => rw [from_utf8] at h; simp at h
      | cons b bs =>
        rw [from_utf8] at h
        split at h
        · cases h
        next d hdecode =>
          rw [Option.map_eq_some_iff] at h
          obtain ⟨rest, hrest, hcons⟩ := h
          obtain ⟨rfl, rfl⟩ := List.cons.inj hcons
          rw [eq_of_decode_char?_eq_some hdecode, ih hrest, as_bytes_cons]
  · rintro rfl
    exact from_utf8_as_bytes s

theorem as_bytes_injective : Function.Injective as_bytes := by
  intro s t h
  have hs := from_utf8_as_bytes s
  rw [h, from_utf8_as_bytes] at hs
  exact (Option.some.inj hs).symm

/-- An ASCII scalar value is encoded as the byte of its own number. -/
theorem encode_char_ascii {c : Char} (h : c.toNat < 128) :
    String.utf8EncodeChar c = [UInt8.ofNat c.toNat] := by
  have hsize : c.utf8Size = 1 := by
    rw [Char.utf8Size_eq_one_iff, UInt32.le_iff_toNat_le]
    change c.toNat ≤ 127
    omega
  rw [String.utf8EncodeChar_eq_singleton hsize]
  rfl

/-- An ASCII text is encoded byte for character. -/
theorem as_bytes_ascii {s : Str} (h : ∀ c ∈ s, c.toNat < 128) :
    as_bytes s = s.map fun c => UInt8.ofNat c.toNat := by
  induction s with
  | nil => rfl
  | cons c s ih =>
    rw [as_bytes_cons, encode_char_ascii (h c (by simp)), ih fun d hd => h d (by simp [hd]), List.map_cons]
    rfl

theorem length_as_bytes_ascii {s : Str} (h : ∀ c ∈ s, c.toNat < 128) : (as_bytes s).length = s.length := by
  rw [as_bytes_ascii h, List.length_map]

/-- Every byte of a multi-byte encoding is at least 128. -/
theorem le_of_mem_encode_char {c : Char} {b : UInt8} (hc : 128 ≤ c.toNat)
    (h : b ∈ String.utf8EncodeChar c) : 128 ≤ b.toNat := by
  have hc' : ¬ c.val.toNat ≤ 0x7f := by
    change ¬ c.toNat ≤ 127
    omega
  rw [String.utf8EncodeChar, if_neg hc'] at h
  split at h
  · simp only [List.mem_cons, List.not_mem_nil, or_false] at h
    rcases h with rfl | rfl <;> rw [UInt8.toNat_ofNat'] <;> omega
  · split at h
    · simp only [List.mem_cons, List.not_mem_nil, or_false] at h
      rcases h with rfl | rfl | rfl <;> rw [UInt8.toNat_ofNat'] <;> omega
    · simp only [List.mem_cons, List.not_mem_nil, or_false] at h
      rcases h with rfl | rfl | rfl | rfl <;> rw [UInt8.toNat_ofNat'] <;> omega

/-- An ASCII byte occurs only as the encoding of its own scalar value. -/
theorem encode_char_of_mem_ascii {c : Char} {b : UInt8} (hb : b.toNat < 128)
    (h : b ∈ String.utf8EncodeChar c) : c.toNat = b.toNat ∧ String.utf8EncodeChar c = [b] := by
  rcases Nat.lt_or_ge c.toNat 128 with hc | hc
  · rw [encode_char_ascii hc, List.mem_singleton] at h
    subst h
    refine ⟨?_, encode_char_ascii hc⟩
    rw [UInt8.toNat_ofNat']
    omega
  · exact absurd (le_of_mem_encode_char hc h) (by omega)

/-- A buffer that starts with the bytes of one text and is the bytes of another starts
with the first text. -/
theorem exists_of_as_bytes_eq_append {front s : Str} {back : Bytes}
    (h : as_bytes s = as_bytes front ++ back) : ∃ rest, s = front ++ rest ∧ back = as_bytes rest := by
  induction front generalizing s with
  | nil => exact ⟨s, rfl, h.symm⟩
  | cons c front ih =>
    rw [as_bytes_cons, List.append_assoc] at h
    have hdecode := decode_char?_encode_append c (as_bytes front ++ back)
    rw [← h] at hdecode
    cases s with
    | nil => simp at hdecode
    | cons d s =>
      rw [as_bytes_cons, decode_char?_encode_append] at hdecode
      obtain rfl := Option.some.inj hdecode
      rw [as_bytes_cons, List.append_cancel_left_eq] at h
      obtain ⟨rest, rfl, hback⟩ := ih h
      exact ⟨rest, rfl, hback⟩

/-- An ASCII byte in the bytes of a text cuts the text at its scalar value. -/
theorem exists_of_as_bytes_eq_append_cons {c : Char} (hc : c.toNat < 128) {s : Str} {front back : Bytes}
    (h : as_bytes s = front ++ UInt8.ofNat c.toNat :: back) :
    ∃ left right, s = left ++ c :: right ∧ front = as_bytes left ∧ back = as_bytes right := by
  have hbyte : (UInt8.ofNat c.toNat).toNat = c.toNat := by
    rw [UInt8.toNat_ofNat']
    omega
  induction s generalizing front with
  | nil => simp at h
  | cons d s ih =>
    rw [as_bytes_cons] at h
    rcases List.append_eq_append_iff.mp h with ⟨middle, rfl, hs⟩ | ⟨middle, hd, hs⟩
    · obtain ⟨left, right, rfl, rfl, hback⟩ := ih hs
      exact ⟨d :: left, right, rfl, rfl, hback⟩
    · cases middle with
      | nil =>
        rw [List.append_nil] at hd
        rw [List.nil_append] at hs
        obtain ⟨left, right, rfl, hleft, hback⟩ := @ih [] hs.symm
        exact ⟨d :: left, right, rfl, by rw [as_bytes_cons, ← hd, ← hleft, List.append_nil], hback⟩
      | cons b middle =>
        rw [List.cons_append, List.cons.injEq] at hs
        obtain ⟨rfl, rfl⟩ := hs
        have hmem : UInt8.ofNat c.toNat ∈ String.utf8EncodeChar d := by simp [hd]
        obtain ⟨hdc, hsingle⟩ := encode_char_of_mem_ascii (by omega) hmem
        obtain rfl : c = d := Char.toNat_inj.mp (by omega)
        rw [hsingle] at hd
        have hlength := congrArg List.length hd
        simp only [List.length_append, List.length_cons, List.length_nil] at hlength
        obtain rfl : front = [] := List.eq_nil_of_length_eq_zero (by omega)
        obtain rfl : middle = [] := List.eq_nil_of_length_eq_zero (by omega)
        exact ⟨[], s, rfl, rfl, rfl⟩

/-- Behind an ASCII byte at the front of a text are the bytes of the rest of the text. -/
theorem exists_of_as_bytes_eq_cons {s : Str} {b : UInt8} {back : Bytes} (hb : b.toNat < 128)
    (h : as_bytes s = b :: back) : ∃ right, right <:+ s ∧ back = as_bytes right := by
  have hchar : (Char.ofNat b.toNat).toNat = b.toNat := by
    rw [Char.toNat_ofNat, if_pos (.inl (by omega))]
  have hbyte : UInt8.ofNat (Char.ofNat b.toNat).toNat = b := by rw [hchar, UInt8.ofNat_toNat]
  rw [← hbyte] at h
  obtain ⟨left, right, rfl, _, hback⟩ := @exists_of_as_bytes_eq_append_cons _ (by omega) _ [] _ h
  exact ⟨right, ⟨left ++ [Char.ofNat b.toNat], by simp⟩, hback⟩

/-- An ASCII byte occurs in the bytes of a text exactly where its scalar value occurs. -/
theorem mem_as_bytes_ascii_iff {c : Char} (hc : c.toNat < 128) {s : Str} :
    UInt8.ofNat c.toNat ∈ as_bytes s ↔ c ∈ s := by
  constructor
  · intro h
    obtain ⟨front, back, h⟩ := List.append_of_mem h
    obtain ⟨left, right, rfl, _⟩ := exists_of_as_bytes_eq_append_cons hc h
    simp
  · intro h
    obtain ⟨front, back, rfl⟩ := List.append_of_mem h
    rw [as_bytes_append, as_bytes_cons, encode_char_ascii hc]
    simp

/-- A text starts with an ASCII byte or a leading byte, never with a continuation byte. -/
theorem not_continuation_of_as_bytes_eq_cons {s : Str} {b : UInt8} {rest : Bytes} (h : as_bytes s = b :: rest) :
    b.toNat < 128 ∨ 192 ≤ b.toNat := by
  cases s with
  | nil => simp at h
  | cons c s =>
    rw [as_bytes_cons, String.utf8EncodeChar] at h
    split at h
    · simp only [List.cons_append, List.cons.injEq] at h
      rw [← h.1, UInt8.toNat_ofNat']
      omega
    · split at h
      · simp only [List.cons_append, List.cons.injEq] at h
        rw [← h.1, UInt8.toNat_ofNat']
        omega
      · split at h <;>
        · simp only [List.cons_append, List.cons.injEq] at h
          rw [← h.1, UInt8.toNat_ofNat']
          omega

end rust
