import Lys.RustStd.Utf8

open rust

namespace rfc8949

/-- A CBOR data item. Floats are given by the bits of their 64-bit form. -/
inductive Value where
  | integer (n : Int)
  | bytes (content : Bytes)
  | text (content : Str)
  | array (items : List Value)
  | map (entries : List (Value × Value))
  | tag (number : UInt64) (content : Value)
  | bool (b : Bool)
  | null
  | float (bits : UInt64)

/-- The shortest head of a major type and its argument, RFC 8949 §4.2.1. -/
def head (major argument : Nat) : Bytes :=
  if argument < 24 then [UInt8.ofNat (32 * major + argument)]
  else if argument < 2 ^ 8 then UInt8.ofNat (32 * major + 24) :: to_be_bytes 1 argument
  else if argument < 2 ^ 16 then UInt8.ofNat (32 * major + 25) :: to_be_bytes 2 argument
  else if argument < 2 ^ 32 then UInt8.ofNat (32 * major + 26) :: to_be_bytes 4 argument
  else UInt8.ofNat (32 * major + 27) :: to_be_bytes 8 argument

theorem length_head_le (major argument : Nat) : 1 ≤ (head major argument).length ∧
    (head major argument).length ≤ 9 := by
  unfold head
  split_ifs <;> simp [length_to_be_bytes]

def encode_integer (n : Int) : Bytes := if 0 ≤ n then head 0 n.toNat else head 1 (-1 - n).toNat

mutual

/-- The encoding with definite lengths and shortest heads. -/
def encode : Value → Bytes
  | .integer n => encode_integer n
  | .bytes content => head 2 content.length ++ content
  | .text content => head 3 (as_bytes content).length ++ as_bytes content
  | .array items => head 4 items.length ++ encode_items items
  | .map entries => head 5 entries.length ++ encode_entries entries
  | .tag number content => head 6 number.toNat ++ encode content
  | .bool false => [0xf4]
  | .bool true => [0xf5]
  | .null => [0xf6]
  | .float bits => 0xfb :: to_be_bytes 8 bits.toNat

def encode_items : List Value → Bytes
  | [] => []
  | item :: items => encode item ++ encode_items items

def encode_entries : List (Value × Value) → Bytes
  | [] => []
  | (key, value) :: entries => encode key ++ encode value ++ encode_entries entries

end

/-- Items nested at most `depth` deep whose encoding is the deterministic one of RFC 8949
§4.2: sizes fit their heads and map keys ascend bytewise. Bignum tags, which stand for
integers, and floats, which have shorter forms, are left out. -/
def Canonical : Nat → Value → Prop
  | 0, _ => False
  | depth + 1, value =>
    match value with
    | .integer n => -2 ^ 64 ≤ n ∧ n < 2 ^ 64
    | .bytes content => content.length < 2 ^ 64
    | .text content => (as_bytes content).length < 2 ^ 64
    | .array items => items.length < 2 ^ 64 ∧ ∀ item ∈ items, Canonical depth item
    | .map entries => entries.length < 2 ^ 64 ∧
        (entries.map fun entry => encode entry.1).Pairwise (· < ·) ∧
        ∀ entry ∈ entries, Canonical depth entry.1 ∧ Canonical depth entry.2
    | .tag number content => number ≠ 2 ∧ number ≠ 3 ∧ Canonical depth content
    | .bool _ => True
    | .null => True
    | .float _ => False

/-- Reads a head: the major type, the argument and the rest. -/
def read_head : Bytes → Option (Nat × Nat × Bytes)
  | [] => none
  | byte :: rest =>
    let info := byte.toNat % 32
    if info < 24 then some (byte.toNat / 32, info, rest)
    else
      let width := 2 ^ (info - 24)
      if info < 28 ∧ width ≤ rest.length then
        some (byte.toNat / 32, from_be_bytes (rest.take width), rest.drop width)
      else none

/-- Reads `n` bytes. -/
def read_slice (n : Nat) (bytes : Bytes) : Option (Bytes × Bytes) :=
  if n ≤ bytes.length then some (bytes.take n, bytes.drop n) else none

section Readers

variable {α β : Type}

/-- Reads `n` things one after the other. -/
def read_many (read : Bytes → Option (α × Bytes)) : Nat → Bytes → Option (List α × Bytes)
  | 0, bytes => some ([], bytes)
  | n + 1, bytes => do
    let (a, bytes) ← read bytes
    let (rest, bytes) ← read_many read n bytes
    return (a :: rest, bytes)

def read_pair (read : Bytes → Option (α × Bytes)) (bytes : Bytes) : Option ((α × α) × Bytes) := do
  let (a, bytes) ← read bytes
  let (b, bytes) ← read bytes
  return ((a, b), bytes)

/-- What every element is read back from its encoding, the list is. -/
theorem read_many_flatMap {read : Bytes → Option (α × Bytes)} {write : α → Bytes} {as : List α}
    (h : ∀ a ∈ as, ∀ rest, read (write a ++ rest) = some (a, rest)) (rest : Bytes) :
    read_many read as.length (as.flatMap write ++ rest) = some (as, rest) := by
  induction as with
  | nil => rfl
  | cons a as ih =>
    have hrest := ih fun b hb => h b (List.mem_cons_of_mem a hb)
    simp only [List.length_cons, read_many, List.flatMap_cons, List.append_assoc,
      h a List.mem_cons_self, Option.bind_eq_bind, Option.bind_some, hrest]
    rfl

end Readers

/-- The simple values and the 64-bit float. -/
def read_simple : Bytes → Option (Value × Bytes)
  | [] => none
  | byte :: rest =>
    if byte = 0xf4 then some (.bool false, rest)
    else if byte = 0xf5 then some (.bool true, rest)
    else if byte = 0xf6 then some (.null, rest)
    else if byte = 0xfb then
      (read_slice 8 rest).map fun (bits, rest) => (.float (UInt64.ofNat (from_be_bytes bits)), rest)
    else none

/-- Reads one item of definite length from the front, nested at most `depth` deep. -/
def decode : Nat → Bytes → Option (Value × Bytes)
  | 0, _ => none
  | depth + 1, bytes => do
    let (major, argument, rest) ← read_head bytes
    match major with
    | 0 => return (.integer argument, rest)
    | 1 => return (.integer (-1 - argument), rest)
    | 2 =>
      let (content, rest) ← read_slice argument rest
      return (.bytes content, rest)
    | 3 =>
      let (content, rest) ← read_slice argument rest
      let text ← from_utf8 content
      return (.text text, rest)
    | 4 =>
      let (items, rest) ← read_many (decode depth) argument rest
      return (.array items, rest)
    | 5 =>
      let (entries, rest) ← read_many (read_pair (decode depth)) argument rest
      return (.map entries, rest)
    | 6 =>
      let (content, rest) ← decode depth rest
      return (.tag (UInt64.ofNat argument) content, rest)
    | _ => read_simple bytes

theorem encode_items_eq (items : List Value) : encode_items items = items.flatMap encode := by
  induction items with
  | nil => rw [encode_items, List.flatMap_nil]
  | cons item items ih => rw [encode_items, ih, List.flatMap_cons]

theorem encode_entries_eq (entries : List (Value × Value)) :
    encode_entries entries = entries.flatMap fun entry => encode entry.1 ++ encode entry.2 := by
  induction entries with
  | nil => rw [encode_entries, List.flatMap_nil]
  | cons entry entries ih =>
    obtain ⟨key, value⟩ := entry
    rw [encode_entries, ih, List.flatMap_cons]

section Head

variable {major argument : Nat} (hmajor : major < 8)

include hmajor

/-- A head with its argument in `2 ^ k` bytes. -/
theorem read_head_wide {k : Nat} (hk : k < 4) (harg : argument < 256 ^ 2 ^ k) (rest : Bytes) :
    read_head (UInt8.ofNat (32 * major + (24 + k)) :: to_be_bytes (2 ^ k) argument ++ rest) =
      some (major, argument, rest) := by
  have hbyte : (UInt8.ofNat (32 * major + (24 + k))).toNat = 32 * major + (24 + k) := by
    rw [UInt8.toNat_ofNat']
    omega
  have hinfo : (32 * major + (24 + k)) % 32 = 24 + k := by omega
  have hdiv : (32 * major + (24 + k)) / 32 = major := by omega
  simp only [List.cons_append, read_head, hbyte, hinfo, hdiv, Nat.add_sub_cancel_left,
    if_neg (show ¬ 24 + k < 24 by omega)]
  rw [if_pos ⟨by omega, by simp [length_to_be_bytes]⟩,
    List.take_left' (length_to_be_bytes _ _), List.drop_left' (length_to_be_bytes _ _),
    from_be_bytes_to_be_bytes harg]

theorem read_head_head (harg : argument < 2 ^ 64) (rest : Bytes) :
    read_head (head major argument ++ rest) = some (major, argument, rest) := by
  unfold head
  split_ifs with h0 h1 h2 h3
  · have hbyte : (UInt8.ofNat (32 * major + argument)).toNat = 32 * major + argument := by
      rw [UInt8.toNat_ofNat']
      omega
    have hinfo : (32 * major + argument) % 32 = argument := by omega
    have hdiv : (32 * major + argument) / 32 = major := by omega
    simp only [List.cons_append, List.nil_append, read_head, hbyte, hinfo, hdiv, if_pos h0]
  · exact read_head_wide hmajor (k := 0) (by decide) h1 rest
  · exact read_head_wide hmajor (k := 1) (by decide) h2 rest
  · exact read_head_wide hmajor (k := 2) (by decide) h3 rest
  · exact read_head_wide hmajor (k := 3) (by decide) harg rest

end Head

theorem read_slice_append {n : Nat} {content : Bytes} (h : content.length = n) (rest : Bytes) :
    read_slice n (content ++ rest) = some (content, rest) := by
  subst h
  simp [read_slice]

/-- The reader reads every canonical encoding back, whatever follows it. -/
theorem decode_encode {depth : Nat} {value : Value} (h : Canonical depth value) (rest : Bytes) :
    decode depth (encode value ++ rest) = some (value, rest) := by
  induction depth generalizing value rest with
  | zero => exact h.elim
  | succ depth ih =>
    cases value with
    | integer n =>
      obtain ⟨hlo, hhi⟩ := h
      rw [encode, encode_integer]
      split
      next hn =>
        rw [decode, read_head_head (by decide) (by omega)]
        simp [hn]
      next hn =>
        rw [decode, read_head_head (by decide) (by omega)]
        have hback : -1 - ((-1 - n).toNat : Int) = n := by omega
        change some (Value.integer (-1 - ((-1 - n).toNat : Int)), rest) = _
        rw [hback]
    | bytes content =>
      rw [encode, List.append_assoc, decode, read_head_head (by decide) h]
      simp [read_slice_append rfl]
    | text content =>
      rw [encode, List.append_assoc, decode, read_head_head (by decide) h]
      simp [read_slice_append rfl]
    | array items =>
      rw [encode, List.append_assoc, decode, read_head_head (by decide) h.1, encode_items_eq]
      have hitems := read_many_flatMap (fun item hitem rest => ih (h.2 item hitem) rest) rest
      simp [hitems]
    | map entries =>
      rw [encode, List.append_assoc, decode, read_head_head (by decide) h.1, encode_entries_eq]
      have hentries : read_many (read_pair (decode depth)) entries.length
          ((entries.flatMap fun entry => encode entry.1 ++ encode entry.2) ++ rest) = some (entries, rest) := by
        refine read_many_flatMap (fun entry hentry rest => ?_) rest
        obtain ⟨hkey, hvalue⟩ := h.2.2 entry hentry
        simp [read_pair, ih hkey, ih hvalue]
      simp [hentries]
    | tag number content =>
      rw [encode, List.append_assoc, decode, read_head_head (by decide) number.toNat_lt]
      simp [ih h.2.2]
    | bool b => cases b <;> rw [encode] <;> rfl
    | null => rw [encode]; rfl
    | float bits => exact h.elim

/-- The deterministic encoding determines the item. -/
theorem eq_of_encode_eq {depth : Nat} {a b : Value} (ha : Canonical depth a) (hb : Canonical depth b)
    (h : encode a = encode b) : a = b := by
  have hdecode := decode_encode ha []
  rw [h, decode_encode hb []] at hdecode
  simpa using hdecode.symm

end rfc8949
