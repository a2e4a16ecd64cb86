import Lys.RustStd.Str

open rust

namespace rfc4648

/-- The base64 alphabet of RFC 4648 §4. -/
def alphabet : Str := "ABCDEFGHIJKLMNOPQRSTUVWXYZabcdefghijklmnopqrstuvwxyz0123456789+/".toList

def encode_sextet (n : Nat) : Char := alphabet.getD n 'A'

def decode_sextet (c : Char) : Option Nat := alphabet.idxOf? c

theorem decode_encode_sextet {n : Nat} (h : n < 64) : decode_sextet (encode_sextet n) = some n := by
  have hall : ∀ n : Fin 64, decode_sextet (encode_sextet n) = some n.val := by decide +kernel
  exact hall ⟨n, h⟩

/-- What every character of a base64 text is: an alphabet character or the pad. -/
def IsBase64Char (c : Char) : Prop := c ∈ alphabet ∨ c = '='

theorem encode_sextet_mem (n : Nat) : encode_sextet n ∈ alphabet := by
  rw [encode_sextet, List.getD_eq_getElem?_getD]
  cases h : alphabet[n]? with
  | none => decide
  | some c => exact List.mem_of_getElem? h

theorem encode_sextet_ne_pad (n : Nat) : encode_sextet n ≠ '=' := by
  intro h
  have hmem := encode_sextet_mem n
  rw [h] at hmem
  exact absurd hmem (by decide)

/-- Base64 with padding, quantum by quantum. -/
def encode : Bytes → Str
  | [] => []
  | [a] => [encode_sextet (a.toNat / 4), encode_sextet (a.toNat % 4 * 16), '=', '=']
  | [a, b] => [encode_sextet (a.toNat / 4), encode_sextet (a.toNat % 4 * 16 + b.toNat / 16),
      encode_sextet (b.toNat % 16 * 4), '=']
  | a :: b :: c :: rest => encode_sextet (a.toNat / 4) ::
      encode_sextet (a.toNat % 4 * 16 + b.toNat / 16) ::
      encode_sextet (b.toNat % 16 * 4 + c.toNat / 64) :: encode_sextet (c.toNat % 64) :: encode rest

/-- The bytes of one quantum of four sextets, of which the first `count` are kept. -/
def quantum (count w x y z : Nat) : Bytes :=
  [UInt8.ofNat (w * 4 + x / 16), UInt8.ofNat (x % 16 * 16 + y / 4), UInt8.ofNat (y % 4 * 64 + z)].take count

/-- Decoding of padded base64 that ignores the unused low bits of a final short
quantum. -/
def decode_lenient : Str → Option Bytes
  | [] => some []
  | [a, b, '=', '='] => do
    let w ← decode_sextet a
    let x ← decode_sextet b
    return quantum 1 w x 0 0
  | [a, b, c, '='] => do
    let w ← decode_sextet a
    let x ← decode_sextet b
    let y ← decode_sextet c
    return quantum 2 w x y 0
  | a :: b :: c :: d :: rest => do
    let w ← decode_sextet a
    let x ← decode_sextet b
    let y ← decode_sextet c
    let z ← decode_sextet d
    return quantum 3 w x y z ++ (← decode_lenient rest)
  | _ => none

/-- Decoding that accepts exactly the encodings: padding complete and unused bits
zero. -/
def decode (s : Str) : Option Bytes :=
  (decode_lenient s).filter fun bytes => encode bytes = s

private theorem toNat_lt (a : UInt8) : a.toNat < 256 := a.toNat_lt

private theorem ofNat_eq {n : Nat} {a : UInt8} (h : n = a.toNat) : UInt8.ofNat n = a := by
  rw [h, UInt8.ofNat_toNat]

@[simp] theorem decode_lenient_encode (bytes : Bytes) : decode_lenient (encode bytes) = some bytes := by
  fun_induction encode bytes with
  | case1 => rfl
  | case2 a =>
    have ha := toNat_lt a
    simp only [decode_lenient, decode_encode_sextet (show a.toNat / 4 < 64 by omega),
      decode_encode_sextet (show a.toNat % 4 * 16 < 64 by omega), Option.bind_eq_bind,
      Option.bind_some, quantum, List.take_succ_cons, List.take_zero, Option.pure_def]
    rw [ofNat_eq (a := a) (by omega)]
  | case3 a b =>
    have ha := toNat_lt a
    have hb := toNat_lt b
    rw [decode_lenient.eq_3 _ _ _ (encode_sextet_ne_pad _)]
    simp only [decode_encode_sextet (show a.toNat / 4 < 64 by omega),
      decode_encode_sextet (show a.toNat % 4 * 16 + b.toNat / 16 < 64 by omega),
      decode_encode_sextet (show b.toNat % 16 * 4 < 64 by omega), Option.bind_eq_bind,
      Option.bind_some, quantum, List.take_succ_cons, List.take_zero, Option.pure_def]
    rw [ofNat_eq (a := a) (by omega), ofNat_eq (a := b) (by omega)]
  | case4 a b c rest ih =>
    have ha := toNat_lt a
    have hb := toNat_lt b
    have hc := toNat_lt c
    rw [decode_lenient.eq_4]
    · simp only [decode_encode_sextet (show a.toNat / 4 < 64 by omega),
        decode_encode_sextet (show a.toNat % 4 * 16 + b.toNat / 16 < 64 by omega),
        decode_encode_sextet (show b.toNat % 16 * 4 + c.toNat / 64 < 64 by omega),
        decode_encode_sextet (show c.toNat % 64 < 64 by omega), Option.bind_eq_bind,
        Option.bind_some, quantum, List.take_succ_cons, List.take_zero, Option.pure_def, ih]
      rw [ofNat_eq (a := a) (by omega), ofNat_eq (a := b) (by omega), ofNat_eq (a := c) (by omega)]
      rfl
    · intro hpad
      exact absurd hpad (encode_sextet_ne_pad _)
    · intro hpad
      exact absurd hpad (encode_sextet_ne_pad _)

theorem decode_eq_some_iff {s : Str} {bytes : Bytes} : decode s = some bytes ↔ s = encode bytes := by
  rw [decode, Option.filter_eq_some_iff, decide_eq_true_eq]
  constructor
  · rintro ⟨_, h⟩
    exact h.symm
  · rintro rfl
    simp

theorem encode_injective : Function.Injective encode := by
  intro a b h
  have ha := decode_lenient_encode a
  rw [h, decode_lenient_encode] at ha
  exact (Option.some.inj ha).symm

theorem length_encode (bytes : Bytes) : (encode bytes).length = 4 * ((bytes.length + 2) / 3) := by
  fun_induction encode bytes with
  | case1 => rfl
  | case2 a => simp
  | case3 a b => simp
  | case4 a b c rest ih =>
    simp only [List.length_cons, ih]
    omega

theorem isBase64Char_of_mem_encode {bytes : Bytes} {c : Char} (h : c ∈ encode bytes) : IsBase64Char c := by
  fun_induction encode bytes with
  | case1 => cases h
  | case2 a =>
    simp only [List.mem_cons, List.not_mem_nil, or_false] at h
    rcases h with rfl | rfl | rfl | rfl
    · exact .inl (encode_sextet_mem _)
    · exact .inl (encode_sextet_mem _)
    · exact .inr rfl
    · exact .inr rfl
  | case3 a b =>
    simp only [List.mem_cons, List.not_mem_nil, or_false] at h
    rcases h with rfl | rfl | rfl | rfl
    · exact .inl (encode_sextet_mem _)
    · exact .inl (encode_sextet_mem _)
    · exact .inl (encode_sextet_mem _)
    · exact .inr rfl
  | case4 a b c rest ih =>
    simp only [List.mem_cons] at h
    rcases h with rfl | rfl | rfl | rfl | hrest
    · exact .inl (encode_sextet_mem _)
    · exact .inl (encode_sextet_mem _)
    · exact .inl (encode_sextet_mem _)
    · exact .inl (encode_sextet_mem _)
    · exact ih hrest

/-- Base64 characters are printable ASCII, hence no separators or controls. -/
theorem IsBase64Char.printable {c : Char} (h : IsBase64Char c) : 0x20 < c.toNat ∧ c.toNat < 0x7f := by
  have hall : (alphabet.all fun c => 0x20 < c.toNat && c.toNat < 0x7f) = true := by decide +kernel
  rcases h with hmem | rfl
  · simpa using List.all_eq_true.mp hall c hmem
  · decide

end rfc4648
