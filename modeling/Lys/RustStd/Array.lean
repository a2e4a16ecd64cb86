import Mathlib

namespace rust

/-- A Rust byte buffer, `Vec<u8>` or `&[u8]`. -/
abbrev Bytes := List UInt8

/-- A Rust `str`: its Unicode scalar values in order. Positions are counted in
scalar values; the code only ever uses them to cut slices. -/
abbrev Str := List Char

/-- `[u8; n]`: a byte buffer that carries its length. -/
@[ext]
structure U8Array (n : Nat) where
  as_slice : Bytes
  length_eq : as_slice.length = n
deriving DecidableEq

namespace U8Array

variable {n m : Nat}

attribute [simp] U8Array.length_eq

/-- `<[u8; n]>::try_from(slice)`. -/
def try_from (n : Nat) (bytes : Bytes) : Option (U8Array n) :=
  if h : bytes.length = n then some ⟨bytes, h⟩ else none

theorem try_from_eq_some_iff {bytes : Bytes} {array : U8Array n} :
    try_from n bytes = some array ↔ bytes = array.as_slice := by
  unfold try_from
  constructor
  · intro h
    split at h
    · rw [← Option.some.inj h]
    · cases h
  · rintro rfl
    simp

@[simp] theorem try_from_as_slice (array : U8Array n) : try_from n array.as_slice = some array :=
  try_from_eq_some_iff.mpr rfl

theorem as_slice_injective : Function.Injective (U8Array.as_slice : U8Array n → Bytes) :=
  fun _ _ h => U8Array.ext h

/-- The first `m` bytes, `array[..m]` copied into an `[u8; m]`. -/
def first (array : U8Array n) (m : Nat) (h : m ≤ n) : U8Array m :=
  ⟨array.as_slice.take m, by simp [h]⟩

/-- The array filled with one byte, `[byte; n]`. -/
def repeat_byte (n : Nat) (byte : UInt8) : U8Array n := ⟨List.replicate n byte, by simp⟩

/-- Equal concatenations of two arrays with tails have equal arrays: both heads
have the array's length. -/
theorem append_inj {a b : U8Array n} {s t : Bytes} (h : a.as_slice ++ s = b.as_slice ++ t) :
    a = b ∧ s = t := by
  obtain ⟨hhead, htail⟩ := List.append_inj h (by simp)
  exact ⟨U8Array.ext hhead, htail⟩

end U8Array

/-- `to_be_bytes`: `n` in `count` big-endian bytes. -/
def to_be_bytes (count n : Nat) : Bytes := (List.range count).reverse.map fun i => UInt8.ofNat (n / 256 ^ i)

theorem length_to_be_bytes (count n : Nat) : (to_be_bytes count n).length = count := by simp [to_be_bytes]

theorem to_be_bytes_succ (count n : Nat) :
    to_be_bytes (count + 1) n = UInt8.ofNat (n / 256 ^ count) :: to_be_bytes count n := by
  simp [to_be_bytes, List.range_succ]

/-- `from_be_bytes`: the value of big-endian bytes. -/
def from_be_bytes (bytes : Bytes) : Nat := bytes.foldl (fun value byte => 256 * value + byte.toNat) 0

theorem foldl_to_be_bytes (count n value : Nat) :
    (to_be_bytes count n).foldl (fun value byte => 256 * value + byte.toNat) value =
      value * 256 ^ count + n % 256 ^ count := by
  induction count generalizing value with
  | zero => simp [to_be_bytes, Nat.mod_one]
  | succ count ih =>
    have hbyte : (UInt8.ofNat (n / 256 ^ count)).toNat = n / 256 ^ count % 256 := by
      rw [UInt8.toNat_ofNat']
    rw [to_be_bytes_succ, List.foldl_cons, ih, hbyte, Nat.pow_succ, Nat.mod_mul]
    ring

theorem from_be_bytes_to_be_bytes {count n : Nat} (h : n < 256 ^ count) :
    from_be_bytes (to_be_bytes count n) = n := by
  rw [from_be_bytes, foldl_to_be_bytes, Nat.mod_eq_of_lt h]
  simp

theorem from_be_bytes_cons (byte : UInt8) (bytes : Bytes) :
    from_be_bytes (byte :: bytes) = byte.toNat * 256 ^ bytes.length + from_be_bytes bytes := by
  have hfold : ∀ value, bytes.foldl (fun value byte => 256 * value + byte.toNat) value =
      value * 256 ^ bytes.length + from_be_bytes bytes := by
    induction bytes with
    | nil => simp [from_be_bytes]
    | cons b bytes ih =>
      intro value
      have hvalue : from_be_bytes (b :: bytes) = (256 * 0 + b.toNat) * 256 ^ bytes.length + from_be_bytes bytes :=
        ih (256 * 0 + b.toNat)
      rw [List.foldl_cons, ih, hvalue, List.length_cons, Nat.pow_succ]
      ring
  rw [from_be_bytes, List.foldl_cons, hfold]
  simp

theorem from_be_bytes_lt (bytes : Bytes) : from_be_bytes bytes < 256 ^ bytes.length := by
  induction bytes with
  | nil => simp [from_be_bytes]
  | cons byte bytes ih =>
    have hlt := byte.toNat_lt
    rw [from_be_bytes_cons, List.length_cons, Nat.pow_succ]
    nlinarith

theorem to_be_bytes_mod (count n : Nat) : to_be_bytes count (n % 256 ^ count) = to_be_bytes count n := by
  unfold to_be_bytes
  refine List.map_congr_left fun i hi => ?_
  have hlt : i < count := by simpa using hi
  apply UInt8.toNat_inj.mp
  rw [UInt8.toNat_ofNat', UInt8.toNat_ofNat']
  have hsplit : 256 ^ count = 256 ^ i * 256 ^ (count - i) := by
    rw [← Nat.pow_add]
    congr 1
    omega
  have hdvd : 2 ^ 8 ∣ 256 ^ (count - i) := dvd_pow_self 256 (by omega)
  rw [hsplit, Nat.mod_mul_right_div_self, Nat.mod_mod_of_dvd _ hdvd]

/-- Bytes are the big-endian bytes of their value. -/
theorem to_be_bytes_from_be_bytes (bytes : Bytes) : to_be_bytes bytes.length (from_be_bytes bytes) = bytes := by
  induction bytes with
  | nil => rfl
  | cons byte bytes ih =>
    have hlt := from_be_bytes_lt bytes
    rw [List.length_cons, to_be_bytes_succ, from_be_bytes_cons]
    congr 1
    · rw [Nat.add_comm, Nat.add_mul_div_right _ _ (by positivity), Nat.div_eq_of_lt hlt, Nat.zero_add,
        UInt8.ofNat_toNat]
    · rw [← to_be_bytes_mod, Nat.add_comm, Nat.add_mul_mod_self_right, Nat.mod_eq_of_lt hlt, ih]

/-- `chunks_exact(n)`: the whole chunks of `n` elements in order; a shorter tail is
left to `remainder`. -/
def chunks_exact (n : Nat) (bytes : Bytes) : List Bytes :=
  if 0 < n ∧ n ≤ bytes.length then bytes.take n :: chunks_exact n (bytes.drop n) else []
termination_by bytes.length
decreasing_by simp only [List.length_drop]; omega

/-- `chunks_exact(n).remainder()`. -/
def remainder (n : Nat) (bytes : Bytes) : Bytes := bytes.drop (bytes.length / n * n)

theorem chunks_exact_append {n : Nat} (hn : 0 < n) {head : Bytes} (hhead : head.length = n)
    (tail : Bytes) : chunks_exact n (head ++ tail) = head :: chunks_exact n tail := by
  rw [chunks_exact, if_pos ⟨hn, by simp [hhead]⟩]
  subst hhead
  simp

@[simp] theorem chunks_exact_nil (n : Nat) : chunks_exact n [] = [] := by
  rw [chunks_exact, if_neg (by simp only [List.length_nil]; omega)]

/-- Chunking a concatenation of arrays gives back the arrays. -/
theorem chunks_exact_flatten {n : Nat} (hn : 0 < n) (arrays : List (U8Array n)) :
    chunks_exact n (arrays.flatMap U8Array.as_slice) = arrays.map U8Array.as_slice := by
  induction arrays with
  | nil => simp
  | cons array arrays ih =>
    rw [List.flatMap_cons, chunks_exact_append hn array.length_eq, ih, List.map_cons]

theorem length_flatMap_as_slice {n : Nat} (arrays : List (U8Array n)) :
    (arrays.flatMap U8Array.as_slice).length = arrays.length * n := by
  induction arrays with
  | nil => simp
  | cons array arrays ih =>
    simp only [List.flatMap_cons, List.length_append, U8Array.length_eq, ih, List.length_cons]
    ring

/-- A concatenation of arrays leaves no remainder. -/
theorem remainder_flatten {n : Nat} (hn : 0 < n) (arrays : List (U8Array n)) :
    remainder n (arrays.flatMap U8Array.as_slice) = [] := by
  rw [remainder, List.drop_eq_nil_iff, length_flatMap_as_slice, Nat.mul_div_cancel _ hn]

/-- Equal concatenations of arrays are concatenations of equal lists. -/
theorem flatMap_as_slice_injective {n : Nat} (hn : 0 < n) :
    Function.Injective (fun arrays : List (U8Array n) => arrays.flatMap U8Array.as_slice) := by
  intro a b h
  have hchunks : a.map U8Array.as_slice = b.map U8Array.as_slice := by
    rw [← chunks_exact_flatten hn, ← chunks_exact_flatten hn]
    exact congrArg (chunks_exact n) h
  exact List.map_injective_iff.mpr U8Array.as_slice_injective hchunks

end rust
