import Lys.RustStd.Array

open rust

namespace x690

def SEQUENCE : UInt8 := 0x30
def INTEGER : UInt8 := 0x02

/-- The constructed context-specific tag `[0]`. -/
def CONTEXT_0 : UInt8 := 0xa0

/-- The value of a length in the fewest big-endian octets. -/
def length_octets (length : Nat) : Bytes := (Nat.digits 256 length).reverse.map UInt8.ofNat

/-- Length octets in the definite form of DER: the short form below 128, then the fewest
octets behind their count. -/
def encode_length (length : Nat) : Bytes :=
  if length < 128 then [UInt8.ofNat length]
  else UInt8.ofNat (128 + (length_octets length).length) :: length_octets length

/-- The DER encoding of a tag and its contents. -/
def encode_element (tag : UInt8) (contents : Bytes) : Bytes := tag :: (encode_length contents.length ++ contents)

/-- Up to three octets of length, the octet behind the tag is the short form or lies in
`0x81..=0x83`. -/
theorem encode_length_eq_cons {length : Nat} (h : length < 2 ^ 24) :
    (length < 128 ∧ encode_length length = [UInt8.ofNat length]) ∨
      ∃ count rest, 1 ≤ count ∧ count ≤ 3 ∧ encode_length length = UInt8.ofNat (128 + count) :: rest := by
  unfold encode_length
  split
  next hshort => exact .inl ⟨hshort, rfl⟩
  next hlong =>
    have hne : Nat.digits 256 length ≠ [] := by
      rw [Nat.digits_ne_nil_iff_ne_zero]
      omega
    have hpos := List.length_pos_of_ne_nil hne
    have hcount : (Nat.digits 256 length).length ≤ 3 := by
      rw [Nat.digits_length_le_iff (by decide)]
      exact h
    refine .inr ⟨(length_octets length).length, _, ?_, ?_, rfl⟩
    · rw [length_octets, List.length_map, List.length_reverse]
      exact hpos
    · rw [length_octets, List.length_map, List.length_reverse]
      exact hcount

theorem length_encode_length_mono {a b : Nat} (h : a ≤ b) : (encode_length a).length ≤ (encode_length b).length := by
  have hdigits : (Nat.digits 256 a).length ≤ (Nat.digits 256 b).length := Nat.le_length_digits_le 256 a b h
  unfold encode_length
  split <;> split
  · exact Nat.le_refl 1
  · simp
  · omega
  · simpa [length_octets] using hdigits

/-- The contents of an element can be read off its encoding. -/
theorem encode_element_injective (tag : UInt8) : Function.Injective (encode_element tag) := by
  intro a b h
  have happend : encode_length a.length ++ a = encode_length b.length ++ b := (List.cons.inj h).2
  have htotal := congrArg List.length happend
  simp only [List.length_append] at htotal
  have hlength : a.length = b.length := by
    rcases Nat.le_total a.length b.length with hle | hle
    · have := length_encode_length_mono hle
      omega
    · have := length_encode_length_mono hle
      omega
  rw [hlength] at happend
  exact List.append_cancel_left happend

end x690
