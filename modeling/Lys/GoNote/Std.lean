import Lys.RustStd.Hex
import Lys.Rfc4648.Base64

open rust

namespace go

/-- The runes of a string as `utf8.DecodeRune` yields them; `none` is a `RuneError` of
width one. -/
def runes (s : Bytes) : List (Option Char) :=
  match s with
  | [] => []
  | b :: bs =>
    match decode_char? (b :: bs) with
    | some c => some c :: runes ((b :: bs).drop c.utf8Size)
    | none => none :: runes bs
termination_by s.length
decreasing_by
  · have := c.utf8Size_pos
    simp only [List.length_drop, List.length_cons]
    omega
  · simp

/-- `utf8.ValidString` -/
def ValidString (s : Bytes) : Bool := (runes s).all Option.isSome

/-- `unicode.IsSpace` of a rune; `RuneError` is no space. -/
def IsSpace (rune : Option Char) : Bool := rune.any is_whitespace

/-- `base64.StdEncoding.DecodeString`: carriage returns and newlines are skipped and the
unused bits of a final quantum are not checked. -/
def DecodeString (s : Bytes) : Option Bytes :=
  rfc4648.decode_lenient
    ((s.filter fun b => b ≠ 0x0d ∧ b ≠ 0x0a).map fun b => Char.ofNat b.toNat)

/-- `binary.BigEndian.Uint32` of the first four bytes. -/
def BigEndianUint32 (b : Bytes) : UInt32 :=
  UInt32.ofNat (((b.take 4).map UInt8.toNat).foldl (fun acc x => acc * 256 + x) 0)

/-- `strconv.ParseUint(s, 16, 32)`: digits of either case, without a sign. -/
def ParseUint (s : Bytes) : Option UInt32 :=
  let digits := s.map fun b => Char.ofNat b.toNat
  if s = [] ∨ ¬ digits.all is_ascii_hexdigit then none
  else if hex_number digits < 2 ^ 32 then some (UInt32.ofNat (hex_number digits))
  else none

theorem runes_as_bytes (s : Str) : runes (as_bytes s) = s.map some := by
  induction s with
  | nil => rw [as_bytes_nil, runes, List.map_nil]
  | cons c s ih =>
    have hdecode := decode_char?_encode_append c (as_bytes s)
    have hdrop : (String.utf8EncodeChar c ++ as_bytes s).drop c.utf8Size = as_bytes s :=
      List.drop_left' (String.length_utf8EncodeChar c)
    rw [as_bytes_cons, List.map_cons, ← ih]
    generalize String.utf8EncodeChar c ++ as_bytes s = bytes at hdecode hdrop
    cases bytes with
    | nil => simp at hdecode
    | cons b bs => rw [runes, hdecode]; simp only [hdrop]

/-- Only the bytes of a text decode without a `RuneError` of width one. -/
theorem exists_of_forall_isSome_runes {bytes : Bytes} (h : ∀ rune ∈ runes bytes, rune.isSome = true) :
    ∃ s, bytes = as_bytes s := by
  induction bytes using runes.induct with
  | case1 => exact ⟨[], rfl⟩
  | case2 b bs c hdecode ih =>
    rw [runes, hdecode] at h
    obtain ⟨s, hs⟩ := ih fun rune hrune => h rune (List.mem_cons_of_mem _ hrune)
    exact ⟨c :: s, by rw [as_bytes_cons, ← hs, ← eq_of_decode_char?_eq_some hdecode]⟩
  | case3 b bs hdecode ih =>
    rw [runes, hdecode] at h
    simpa using h none List.mem_cons_self

@[simp] theorem validString_as_bytes (s : Str) : ValidString (as_bytes s) = true := by
  simp [ValidString, runes_as_bytes]

theorem map_ofNat_as_bytes_ascii {s : Str} (h : ∀ c ∈ s, c.toNat < 128) :
    (as_bytes s).map (fun b => Char.ofNat b.toNat) = s := by
  rw [as_bytes_ascii h, List.map_map]
  refine (List.map_congr_left fun c hc => ?_).trans (List.map_id s)
  have hbyte : (UInt8.ofNat c.toNat).toNat = c.toNat := by
    rw [UInt8.toNat_ofNat']
    have := h c hc
    omega
  simp [hbyte]

/-- The standard encoding of any bytes decodes to them. -/
theorem decodeString_encode (bytes : Bytes) :
    DecodeString (as_bytes (rfc4648.encode bytes)) = some bytes := by
  have hprintable : ∀ c ∈ rfc4648.encode bytes, 0x20 < c.toNat ∧ c.toNat < 0x7f := fun c hc =>
    (rfc4648.isBase64Char_of_mem_encode hc).printable
  have hascii : ∀ c ∈ rfc4648.encode bytes, c.toNat < 128 := fun c hc => by
    have := hprintable c hc
    omega
  have hfilter : (as_bytes (rfc4648.encode bytes)).filter (fun b => b ≠ 0x0d ∧ b ≠ 0x0a) =
      as_bytes (rfc4648.encode bytes) := by
    rw [List.filter_eq_self]
    intro b hb
    rw [as_bytes_ascii hascii, List.mem_map] at hb
    obtain ⟨c, hc, rfl⟩ := hb
    have hbyte : (UInt8.ofNat c.toNat).toNat = c.toNat := by
      rw [UInt8.toNat_ofNat']
      have := hascii c hc
      omega
    have := hprintable c hc
    simp only [ne_eq, decide_eq_true_eq, ← UInt8.toNat_inj, hbyte]
    constructor <;> (intro h; rw [h] at this; revert this; decide)
  rw [DecodeString, hfilter, map_ofNat_as_bytes_ascii hascii, rfc4648.decode_lenient_encode]

theorem bigEndianUint32_as_slice (id : U8Array 4) :
    BigEndianUint32 id.as_slice = UInt32.ofNat (from_be_bytes id.as_slice) := by
  rw [BigEndianUint32, from_be_bytes, List.take_of_length_le id.length_eq.le, List.foldl_map]
  simp only [Nat.mul_comm]

/-- Eight digits are read as the big-endian number of the bytes they write. -/
theorem parseUint_as_bytes {digits : Str} (hlength : digits.length = 8) (hdigits : digits.all is_ascii_hexdigit = true)
    {id : U8Array 4} (hid : id.as_slice = hex_bytes digits) :
    ParseUint (as_bytes digits) = some (BigEndianUint32 id.as_slice) := by
  have hascii : ∀ c ∈ digits, c.toNat < 128 := fun c hc => (toNat_of_is_ascii_hexdigit (List.all_eq_true.mp hdigits c hc)).2
  have hne : as_bytes digits ≠ [] := by
    intro h
    have hbytes := length_as_bytes_ascii hascii
    rw [h, hlength] at hbytes
    cases hbytes
  have hnumber : from_be_bytes id.as_slice = hex_number digits := by
    rw [hid, from_be_bytes_hex_bytes (by omega) hdigits]
  have hbound := from_be_bytes_lt id.as_slice
  rw [id.length_eq, hnumber] at hbound
  replace hbound : hex_number digits < 2 ^ 32 := hbound
  rw [ParseUint, map_ofNat_as_bytes_ascii hascii, if_neg (by simp [hne, hdigits]), if_pos hbound,
    bigEndianUint32_as_slice, hnumber]

/-- The first four bytes are determined by their big-endian value. -/
theorem bigEndianUint32_inj {a b : U8Array 4} {s t : Bytes}
    (h : BigEndianUint32 (a.as_slice ++ s) = BigEndianUint32 (b.as_slice ++ t)) : a = b := by
  obtain ⟨as, ha⟩ := a
  obtain ⟨bs, hb⟩ := b
  match as, ha, bs, hb with
  | [a₀, a₁, a₂, a₃], _, [b₀, b₁, b₂, b₃], _ =>
    have := a₀.toNat_lt
    have := a₁.toNat_lt
    have := a₂.toNat_lt
    have := a₃.toNat_lt
    have := b₀.toNat_lt
    have := b₁.toNat_lt
    have := b₂.toNat_lt
    have := b₃.toNat_lt
    have hvalue := congrArg UInt32.toNat h
    simp only [BigEndianUint32, List.cons_append, List.nil_append, List.take_succ_cons, List.take_zero,
      List.map_cons, List.map_nil, List.foldl_cons, List.foldl_nil, zero_mul, zero_add,
      UInt32.toNat_ofNat'] at hvalue
    obtain ⟨h₀, h₁, h₂, h₃⟩ : a₀ = b₀ ∧ a₁ = b₁ ∧ a₂ = b₂ ∧ a₃ = b₃ := by
      simp only [← UInt8.toNat_inj]
      omega
    subst h₀ h₁ h₂ h₃
    rfl

end go
