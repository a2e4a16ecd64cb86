import Lys.Rfc8949.Value

open rust

namespace rfc8949

section Shortest

variable {α : Type}

/-- `bytes` is a shortest encoding of `a`: `read` gives `a` back and leaves what follows, and
whatever else it reads as `a` takes at least as many bytes. -/
structure Shortest (read : Bytes → Option (α × Bytes)) (a : α) (bytes : Bytes) : Prop where
  read_append : ∀ rest, read (bytes ++ rest) = some (a, rest)
  length_le : ∀ other rest, read other = some (a, rest) → bytes.length + rest.length ≤ other.length

variable {read : Bytes → Option (α × Bytes)} {a b : α} {bytes bytes' : Bytes}

/-- Encodings that a reader reads back are prefix-free. -/
theorem Shortest.eq_of_append_eq (ha : Shortest read a bytes) (hb : Shortest read b bytes') {rest rest' : Bytes}
    (h : bytes ++ rest = bytes' ++ rest') : a = b ∧ rest = rest' := by
  have hread := ha.read_append rest
  rw [h, hb.read_append rest', Option.some.injEq, Prod.mk.injEq] at hread
  exact ⟨hread.1.symm, hread.2.symm⟩

end Shortest

/-- The major type and the argument of a head. Major type 7 has its own rules, RFC 8949 §3.3: a
simple value below 32 is never in the byte behind the initial one, and what stands in two, four
or eight bytes is a float and no argument. -/
def read_major_argument : Bytes → Option ((Nat × Nat) × Bytes)
  | [] => none
  | byte :: tail => do
    let (major, argument, rest) ← read_head (byte :: tail)
    let info := byte.toNat % 32
    if major = 7 ∧ (info = 24 ∧ argument < 32 ∨ 24 < info) then none else return ((major, argument), rest)

/-- The major types and arguments that a head stands for. -/
def HasArgument (major argument : Nat) : Prop := major = 7 → argument < 24 ∨ 32 ≤ argument ∧ argument < 2 ^ 8

instance (major argument : Nat) : Decidable (HasArgument major argument) :=
  inferInstanceAs (Decidable (major = 7 → argument < 24 ∨ 32 ≤ argument ∧ argument < 2 ^ 8))

/-- Reads an integer, a head of major type 0 or 1. -/
def read_integer (bytes : Bytes) : Option (Int × Bytes) := do
  let (major, argument, rest) ← read_head bytes
  match major with
  | 0 => return ((argument : Int), rest)
  | 1 => return (-1 - (argument : Int), rest)
  | _ => none

theorem read_head_of_read_major_argument {bytes rest : Bytes} {major argument : Nat}
    (h : read_major_argument bytes = some ((major, argument), rest)) : read_head bytes = some (major, argument, rest) := by
  cases bytes with
  | nil => cases h
  | cons byte tail =>
    obtain ⟨⟨major', argument', rest'⟩, hread, h⟩ := Option.bind_eq_some_iff.mp h
    simp only at h
    split_ifs at h
    cases h
    exact hread

/-- An integer is read from one head: of major type 0 where it is not negative, else of
major type 1. -/
theorem read_integer_eq_some {bytes rest : Bytes} {n : Int} :
    read_integer bytes = some (n, rest) ↔
      0 ≤ n ∧ read_head bytes = some (0, n.toNat, rest) ∨ n < 0 ∧ read_head bytes = some (1, (-1 - n).toNat, rest) := by
  unfold read_integer
  cases hread : read_head bytes with
  | none => simp
  | some head =>
    obtain ⟨major, argument, left⟩ := head
    match major with
    | 0 =>
      have hvalue : (argument : Int) = n ↔ 0 ≤ n ∧ argument = n.toNat := by omega
      change some ((argument : Int), left) = some (n, rest) ↔ _
      simp only [Option.some.injEq, Prod.mk.injEq, true_and, zero_ne_one, false_and, and_false, or_false, hvalue,
        and_assoc]
    | 1 =>
      have hvalue : -1 - (argument : Int) = n ↔ n < 0 ∧ argument = (-1 - n).toNat := by omega
      change some (-1 - (argument : Int), left) = some (n, rest) ↔ _
      simp only [Option.some.injEq, Prod.mk.injEq, true_and, one_ne_zero, false_and, and_false, false_or, hvalue,
        and_assoc]
    | major + 2 => simp

theorem read_simple_ne_integer (bytes : Bytes) (n : Int) (rest : Bytes) :
    read_simple bytes ≠ some (.integer n, rest) := by
  intro h
  unfold read_simple at h
  cases bytes with
  | nil => cases h
  | cons byte tail =>
    simp only at h
    split_ifs at h <;> simp at h

/-- The decoder of items reads integers the same way. -/
theorem decode_eq_integer_iff {depth : Nat} {bytes rest : Bytes} {n : Int} :
    decode (depth + 1) bytes = some (.integer n, rest) ↔ read_integer bytes = some (n, rest) := by
  unfold decode read_integer
  cases hread : read_head bytes with
  | none => simp
  | some head =>
    obtain ⟨major, argument, left⟩ := head
    match major with
    | 0 => simp
    | 1 => simp
    | 2 => simp [Option.bind_eq_some_iff]
    | 3 => simp [Option.bind_eq_some_iff]
    | 4 => simp [Option.bind_eq_some_iff]
    | 5 => simp [Option.bind_eq_some_iff]
    | 6 => simp [Option.bind_eq_some_iff]
    | major + 7 => simpa using read_simple_ne_integer bytes n rest

/-- The length of a head follows from the width of its argument. -/
theorem length_head_le_of_lt (major : Nat) {argument k : Nat} (hk : k < 4) (h : argument < 256 ^ 2 ^ k) :
    (head major argument).length ≤ 1 + 2 ^ k := by
  unfold head
  have hcases : k = 0 ∨ k = 1 ∨ k = 2 ∨ k = 3 := by omega
  split_ifs <;> simp only [List.length_cons, List.length_nil, length_to_be_bytes] <;>
    rcases hcases with rfl | rfl | rfl | rfl <;> omega

/-- The argument of a head needs the bytes it is read from. -/
theorem length_head_le_of_read {bytes rest : Bytes} {major argument : Nat}
    (h : read_head bytes = some (major, argument, rest)) :
    (head major argument).length + rest.length ≤ bytes.length := by
  cases bytes with
  | nil => cases h
  | cons byte tail =>
    simp only [read_head] at h
    split_ifs at h with hinfo hwide
    · cases h
      rw [head, if_pos hinfo, List.length_singleton, List.length_cons, Nat.add_comm]
    · cases h
      have hbound := from_be_bytes_lt (tail.take (2 ^ (byte.toNat % 32 - 24)))
      rw [List.length_take, Nat.min_eq_left hwide.2] at hbound
      have hlength := length_head_le_of_lt (byte.toNat / 32) (by omega) hbound
      rw [List.length_drop, List.length_cons]
      omega

/-- Heads are prefix-free. -/
theorem head_append_inj {major major' argument argument' : Nat} (hmajor : major < 8) (harg : argument < 2 ^ 64)
    (hmajor' : major' < 8) (harg' : argument' < 2 ^ 64) {rest rest' : Bytes}
    (h : head major argument ++ rest = head major' argument' ++ rest') :
    major = major' ∧ argument = argument' ∧ rest = rest' := by
  have hread := read_head_head hmajor harg rest
  rw [h, read_head_head hmajor' harg' rest', Option.some.injEq, Prod.mk.injEq, Prod.mk.injEq] at hread
  exact ⟨hread.1.symm, hread.2.1.symm, hread.2.2.symm⟩

/-- The initial byte of a head tells how long its argument is. -/
theorem head_eq_cons (major argument : Nat) : ∃ byte tail, head major argument = byte :: tail ∧
    (argument < 24 → byte.toNat % 32 < 24) ∧ (24 ≤ argument → argument < 2 ^ 8 → byte.toNat % 32 = 24) ∧
    (2 ^ 8 ≤ argument → 24 < byte.toNat % 32) := by
  have hinfo : ∀ k, k < 32 → (UInt8.ofNat (32 * major + k)).toNat % 32 = k := by
    intro k hk
    rw [UInt8.toNat_ofNat']
    omega
  unfold head
  split_ifs with h0 h1 h2 h3
  · exact ⟨_, _, rfl, by rw [hinfo _ (by omega)]; omega⟩
  · exact ⟨_, _, rfl, by rw [hinfo 24 (by decide)]; omega⟩
  · exact ⟨_, _, rfl, by rw [hinfo 25 (by decide)]; omega⟩
  · exact ⟨_, _, rfl, by rw [hinfo 26 (by decide)]; omega⟩
  · exact ⟨_, _, rfl, by rw [hinfo 27 (by decide)]; omega⟩

/-- A shortest head is read back where it stands for an argument, and nowhere else. -/
theorem read_major_argument_head {major argument : Nat} (hmajor : major < 8) (harg : argument < 2 ^ 64) (rest : Bytes) :
    read_major_argument (head major argument ++ rest) =
      if HasArgument major argument then some ((major, argument), rest) else none := by
  have hread := read_head_head hmajor harg rest
  obtain ⟨byte, tail, hhead, hdirect, hone, hwide⟩ := head_eq_cons major argument
  rw [hhead, List.cons_append] at hread ⊢
  have hrule : (major = 7 ∧ (byte.toNat % 32 = 24 ∧ argument < 32 ∨ 24 < byte.toNat % 32)) ↔ ¬ HasArgument major argument := by
    rw [HasArgument]
    omega
  simp only [read_major_argument, hread, Option.bind_eq_bind, Option.bind_some, hrule]
  by_cases h : HasArgument major argument
  · rw [if_pos h, if_neg (not_not.mpr h)]
    rfl
  · rw [if_neg h, if_pos h]

/-- The shortest head of every major type and argument. -/
theorem shortest_head_iff {major argument : Nat} (hmajor : major < 8) (harg : argument < 2 ^ 64) :
    Shortest read_major_argument (major, argument) (head major argument) ↔ HasArgument major argument := by
  have hread := read_major_argument_head hmajor harg
  constructor
  · intro h
    by_contra hnone
    have hempty := h.read_append []
    rw [hread, if_neg hnone] at hempty
    cases hempty
  · intro h
    refine ⟨fun rest => ?_, fun _ _ hother => length_head_le_of_read (read_head_of_read_major_argument hother)⟩
    rw [hread, if_pos h]

/-- What the reader of integers reads, the decoder of items does. -/
theorem Shortest.decode {n : Int} {bytes : Bytes} (h : Shortest read_integer n bytes) (depth : Nat) :
    Shortest (decode (depth + 1)) (.integer n) bytes where
  read_append rest := decode_eq_integer_iff.mpr (h.read_append rest)
  length_le other rest hread := h.length_le other rest (decode_eq_integer_iff.mp hread)

/-- The shortest encoding of every integer that one head holds. -/
theorem shortest_encode_integer {n : Int} (hlo : -2 ^ 64 ≤ n) (hhi : n < 2 ^ 64) :
    Shortest read_integer n (encode_integer n) where
  read_append rest := by
    rw [read_integer_eq_some, encode_integer]
    by_cases hsign : 0 ≤ n
    · rw [if_pos hsign]
      exact .inl ⟨hsign, read_head_head (by decide) (by omega) rest⟩
    · rw [if_neg hsign]
      exact .inr ⟨by omega, read_head_head (by decide) (by omega) rest⟩
  length_le other rest h := by
    rw [encode_integer]
    rcases read_integer_eq_some.mp h with ⟨hsign, hread⟩ | ⟨hsign, hread⟩
    · rw [if_pos hsign]
      exact length_head_le_of_read hread
    · rw [if_neg (by omega)]
      exact length_head_le_of_read hread

end rfc8949
