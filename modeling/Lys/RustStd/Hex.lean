import Lys.RustStd.Array

namespace rust

/-- `u8::is_ascii_hexdigit`, of a scalar value. -/
def is_ascii_hexdigit (c : Char) : Bool :=
  (0x30 ≤ c.toNat && c.toNat ≤ 0x39) || (0x61 ≤ c.toNat && c.toNat ≤ 0x66) || (0x41 ≤ c.toNat && c.toNat ≤ 0x46)

/-- The value of a hexadecimal digit. -/
def hex_value (c : Char) : Nat :=
  if c.toNat ≤ 0x39 then c.toNat - 0x30 else if 0x61 ≤ c.toNat then c.toNat - 0x57 else c.toNat - 0x37

/-- `char::to_digit(16)` -/
def to_digit_16 (c : Char) : Option Nat := if is_ascii_hexdigit c then some (hex_value c) else none

/-- Lowercase hex, `{byte:02x}` for every byte. -/
def hex_lower (bytes : Bytes) : Str := bytes.flatMap fun byte => List.leftpad 2 '0' (Nat.toDigits 16 byte.toNat)

/-- The number that hexadecimal digits write. -/
def hex_number (digits : Str) : Nat := digits.foldl (fun value digit => 16 * value + hex_value digit) 0

/-- `u32::from_str_radix(s, 16)`, with the texts of `ParseIntError`. -/
def u32_from_str_radix_16 (s : Str) : Except String UInt32 :=
  let digits := if s.head? = some '+' then s.tail else s
  if s = [] then .error "cannot parse integer from empty string"
  else if digits = [] ∨ ¬ digits.all is_ascii_hexdigit then .error "invalid digit found in string"
  else if hex_number digits < 2 ^ 32 then .ok (UInt32.ofNat (hex_number digits))
  else .error "number too large to fit in target type"

/-- The bytes that pairs of hexadecimal digits write. -/
def hex_bytes : Str → Bytes
  | high :: low :: digits => UInt8.ofNat (16 * hex_value high + hex_value low) :: hex_bytes digits
  | _ => []

theorem toNat_of_is_ascii_hexdigit {c : Char} (h : is_ascii_hexdigit c = true) : 0x30 ≤ c.toNat ∧ c.toNat < 128 := by
  simp only [is_ascii_hexdigit, Bool.or_eq_true, Bool.and_eq_true, decide_eq_true_eq] at h
  omega

theorem hex_value_lt {c : Char} (h : is_ascii_hexdigit c = true) : hex_value c < 16 := by
  simp only [is_ascii_hexdigit, Bool.or_eq_true, Bool.and_eq_true, decide_eq_true_eq] at h
  unfold hex_value
  split
  next => omega
  next => split <;> omega

theorem digitChar_hex_value {c : Char} (h : is_ascii_hexdigit c = true) : Nat.digitChar (hex_value c) = c.toLower := by
  have hall : ∀ n : Fin 128, is_ascii_hexdigit (Char.ofNat n) = true →
      Nat.digitChar (hex_value (Char.ofNat n)) = (Char.ofNat n).toLower := by decide +kernel
  have hlt : c.toNat < 128 := by
    simp only [is_ascii_hexdigit, Bool.or_eq_true, Bool.and_eq_true, decide_eq_true_eq] at h
    omega
  simpa [h] using hall ⟨c.toNat, hlt⟩

theorem hex_value_digitChar {n : Nat} (h : n < 16) :
    is_ascii_hexdigit (Nat.digitChar n) = true ∧ hex_value (Nat.digitChar n) = n := by
  have hall : ∀ n : Fin 16, is_ascii_hexdigit (Nat.digitChar n) = true ∧ hex_value (Nat.digitChar n) = n := by
    decide +kernel
  exact hall ⟨n, h⟩

@[simp] theorem hex_lower_nil : hex_lower [] = [] := rfl

/-- A byte is written as two digits. -/
theorem hex_lower_cons (byte : UInt8) (bytes : Bytes) : hex_lower (byte :: bytes) =
    Nat.digitChar (byte.toNat / 16) :: Nat.digitChar (byte.toNat % 16) :: hex_lower bytes := by
  have hdigits : List.leftpad 2 '0' (Nat.toDigits 16 byte.toNat) =
      [Nat.digitChar (byte.toNat / 16), Nat.digitChar (byte.toNat % 16)] := by
    have hlt := byte.toNat_lt
    rcases Nat.lt_or_ge byte.toNat 16 with hsmall | hlarge
    · rw [Nat.toDigits_of_lt_base hsmall, Nat.div_eq_of_lt hsmall, Nat.mod_eq_of_lt hsmall]
      rfl
    · rw [Nat.toDigits_of_base_le (by decide) hlarge, Nat.toDigits_of_lt_base (by omega)]
      rfl
  rw [hex_lower, List.flatMap_cons, hdigits]
  rfl

theorem length_hex_lower (bytes : Bytes) : (hex_lower bytes).length = 2 * bytes.length := by
  induction bytes with
  | nil => rfl
  | cons byte bytes ih =>
    rw [hex_lower_cons, List.length_cons, List.length_cons, ih, List.length_cons]
    omega

theorem is_ascii_hexdigit_of_mem_hex_lower {bytes : Bytes} {c : Char} (h : c ∈ hex_lower bytes) :
    is_ascii_hexdigit c = true := by
  induction bytes with
  | nil => cases h
  | cons byte bytes ih =>
    have hlt := byte.toNat_lt
    rw [hex_lower_cons, List.mem_cons, List.mem_cons] at h
    obtain rfl | rfl | h := h
    · exact (hex_value_digitChar (by omega)).1
    · exact (hex_value_digitChar (by omega)).1
    · exact ih h

/-- Bytes are read back from their hex. -/
theorem hex_bytes_hex_lower (bytes : Bytes) : hex_bytes (hex_lower bytes) = bytes := by
  induction bytes with
  | nil => rfl
  | cons byte bytes ih =>
    have hlt := byte.toNat_lt
    rw [hex_lower_cons, hex_bytes, ih, (hex_value_digitChar (by omega)).2, (hex_value_digitChar (by omega)).2,
      Nat.div_add_mod, UInt8.ofNat_toNat]

/-- Hex is written back in lowercase. -/
theorem hex_lower_hex_bytes {digits : Str} (heven : 2 ∣ digits.length) (hdigits : digits.all is_ascii_hexdigit = true) :
    hex_lower (hex_bytes digits) = digits.map Char.toLower := by
  fun_induction hex_bytes digits with
  | case1 high low digits ih =>
    simp only [List.all_cons, Bool.and_eq_true] at hdigits
    obtain ⟨hhigh, hlow, hdigits⟩ := hdigits
    have hhighLt := hex_value_lt hhigh
    have hlowLt := hex_value_lt hlow
    have hbyte : (UInt8.ofNat (16 * hex_value high + hex_value low)).toNat = 16 * hex_value high + hex_value low := by
      rw [UInt8.toNat_ofNat']
      omega
    rw [hex_lower_cons, hbyte, ih (by simpa using heven) hdigits,
      show (16 * hex_value high + hex_value low) / 16 = hex_value high by omega,
      show (16 * hex_value high + hex_value low) % 16 = hex_value low by omega, digitChar_hex_value hhigh,
      digitChar_hex_value hlow]
    rfl
  | case2 digits hshort =>
    match digits with
    | [] => rfl
    | [_] => simp at heven
    | high :: low :: digits => exact absurd rfl (hshort high low digits)

theorem length_hex_bytes (digits : Str) : (hex_bytes digits).length = digits.length / 2 := by
  fun_induction hex_bytes digits with
  | case1 high low digits ih =>
    rw [List.length_cons, ih, List.length_cons, List.length_cons]
    omega
  | case2 digits hshort =>
    match digits with
    | [] => rfl
    | [_] => simp
    | high :: low :: digits => exact absurd rfl (hshort high low digits)

theorem foldl_hex_bytes {digits : Str} (heven : 2 ∣ digits.length) (hdigits : digits.all is_ascii_hexdigit = true)
    (value : Nat) : (hex_bytes digits).foldl (fun value byte => 256 * value + byte.toNat) value =
      digits.foldl (fun value digit => 16 * value + hex_value digit) value := by
  fun_induction hex_bytes digits generalizing value with
  | case1 high low digits ih =>
    simp only [List.all_cons, Bool.and_eq_true] at hdigits
    obtain ⟨hhigh, hlow, hdigits⟩ := hdigits
    have hhighLt := hex_value_lt hhigh
    have hlowLt := hex_value_lt hlow
    have hbyte : (UInt8.ofNat (16 * hex_value high + hex_value low)).toNat = 16 * hex_value high + hex_value low := by
      rw [UInt8.toNat_ofNat']
      omega
    rw [List.foldl_cons, List.foldl_cons, List.foldl_cons, hbyte, ih (by simpa using heven) hdigits]
    congr 1
    ring
  | case2 digits hshort =>
    match digits with
    | [] => rfl
    | [_] => simp at heven
    | high :: low :: digits => exact absurd rfl (hshort high low digits)

/-- The number of hex digits is the big-endian value of their bytes. -/
theorem from_be_bytes_hex_bytes {digits : Str} (heven : 2 ∣ digits.length)
    (hdigits : digits.all is_ascii_hexdigit = true) : from_be_bytes (hex_bytes digits) = hex_number digits :=
  foldl_hex_bytes heven hdigits 0

/-- A sign is no digit, so that only the bound can fail on digits. -/
theorem u32_from_str_radix_16_digits {s : Str} (hne : s ≠ []) (hdigits : s.all is_ascii_hexdigit = true) :
    u32_from_str_radix_16 s = if hex_number s < 2 ^ 32 then .ok (UInt32.ofNat (hex_number s))
      else .error "number too large to fit in target type" := by
  have hsign : s.head? ≠ some '+' := by
    intro h
    have hplus := List.all_eq_true.mp hdigits '+' (List.mem_of_mem_head? h)
    revert hplus
    decide
  rw [u32_from_str_radix_16, if_neg hsign, if_neg hne, if_neg (by simp [hne, hdigits])]

end rust
