import Lys.Log.Store
import Lys.Posix.Rules

open rust effect posix

namespace lys

section Name

theorem leaf_name_eq (index : UInt64) :
    leaf_name index = List.replicate (LEAF_NAME_WIDTH - (u64_to_string index).length) '0' ++ u64_to_string index := rfl

theorem length_leaf_name (index : UInt64) : (leaf_name index).length = LEAF_NAME_WIDTH := by
  rw [leaf_name, List.length_leftpad]
  exact max_eq_left (length_u64_to_string_le index)

theorem all_isDigit_leaf_name (index : UInt64) : (leaf_name index).all Char.isDigit = true := by
  rw [leaf_name_eq, List.all_append, all_isDigit_u64_to_string, Bool.and_true, List.all_eq_true]
  intro c hc
  rw [List.eq_of_mem_replicate hc]
  rfl

theorem ofDigitChars_leaf_name (index : UInt64) : Nat.ofDigitChars 10 (leaf_name index) 0 = index.toNat := by
  rw [leaf_name_eq, Nat.ofDigitChars_append, Nat.ofDigitChars_replicate_zero, Nat.mul_zero, u64_to_string,
    Nat.ofDigitChars_ten_toDigits]

theorem leaf_name_ne_nil (index : UInt64) : leaf_name index ≠ [] := by
  rw [← List.length_pos_iff, length_leaf_name]
  decide

theorem parse_u64_leaf_name (index : UInt64) : parse_u64 (leaf_name index) = .ok index := by
  rw [parse_u64_digits (leaf_name_ne_nil index) (all_isDigit_leaf_name index), ofDigitChars_leaf_name,
    if_pos index.toNat_lt, UInt64.ofNat_toNat]

/-- A leaf name is the only name of 20 digits with its value. -/
theorem eq_leaf_name_of_parse_u64 {text : Str} {index : UInt64} (hlength : text.length = LEAF_NAME_WIDTH)
    (hdigits : text.all Char.isDigit = true) (h : parse_u64 text = .ok index) : text = leaf_name index := by
  have hne : text ≠ [] := by
    rw [← List.length_pos_iff, hlength]
    decide
  rw [parse_u64_digits hne hdigits] at h
  split at h
  next hlt =>
    refine eq_of_ofDigitChars_eq (hlength.trans (length_leaf_name index).symm) hdigits (all_isDigit_leaf_name index) ?_
    rw [ofDigitChars_leaf_name, ← Except.ok.inj h]
    exact (UInt64.toNat_ofNat_of_lt' hlt).symm
  next => cases h

/-- The name of a leaf's file. -/
def leaf_entry (index : UInt64) : Name := as_bytes (leaf_name index)

theorem leaf_path_eq (dir : Path) (index : UInt64) : leaf_path dir index = leaves_dir dir ++ [leaf_entry index] := rfl

theorem leaf_entry_injective : Function.Injective leaf_entry := by
  intro a b h
  have hparse := congrArg parse_u64 (as_bytes_injective h)
  rw [parse_u64_leaf_name, parse_u64_leaf_name] at hparse
  exact Except.ok.inj hparse

theorem toNat_lt_of_all_isDigit {text : Str} (h : text.all Char.isDigit = true) : ∀ c ∈ text, c.toNat < 128 := by
  intro c hc
  have hdigit := toNat_lt_of_isDigit (List.all_eq_true.mp h c hc)
  omega

theorem length_leaf_entry (index : UInt64) : (leaf_entry index).length = LEAF_NAME_WIDTH := by
  rw [leaf_entry, length_as_bytes_ascii (toNat_lt_of_all_isDigit (all_isDigit_leaf_name index)), length_leaf_name]

/-- Names that start with a dot are passed over. -/
def hidden (name : Name) : Bool := (from_utf8 name).any fun text => text.head? = some '.'

theorem hidden_leaf_entry (index : UInt64) : hidden (leaf_entry index) = false := by
  rw [hidden, leaf_entry, from_utf8_as_bytes, Option.any_some, decide_eq_false_iff_not]
  intro hhead
  have hdigit := List.all_eq_true.mp (all_isDigit_leaf_name index) '.' (List.mem_of_mem_head? hhead)
  exact absurd hdigit (by decide)

/-- The names that count. -/
def visible (names : List Name) : List Name := names.filter fun name => !hidden name

/-- The names of the first `n` leaves. -/
def leaf_entries (n : Nat) : List Name := (List.range n).map fun i => leaf_entry (UInt64.ofNat i)

@[simp] theorem length_leaf_entries (n : Nat) : (leaf_entries n).length = n := by simp [leaf_entries]

theorem mem_leaf_entries_iff {n : Nat} {name : Name} :
    name ∈ leaf_entries n ↔ ∃ i < n, name = leaf_entry (UInt64.ofNat i) := by
  simp [leaf_entries, eq_comm]

theorem toNat_ofNat_of_lt {i : Nat} (h : i < 2 ^ 64) : (UInt64.ofNat i).toNat = i := UInt64.toNat_ofNat_of_lt' h

theorem ofNat_inj {i j : Nat} (hi : i < 2 ^ 64) (hj : j < 2 ^ 64) (h : UInt64.ofNat i = UInt64.ofNat j) : i = j := by
  have hnat := congrArg UInt64.toNat h
  rwa [toNat_ofNat_of_lt hi, toNat_ofNat_of_lt hj] at hnat

theorem nodup_leaf_entries {n : Nat} (hn : n ≤ 2 ^ 64) : (leaf_entries n).Nodup := by
  refine List.Nodup.map_on (fun i hi j hj h => ?_) List.nodup_range
  rw [List.mem_range] at hi hj
  exact ofNat_inj (by omega) (by omega) (leaf_entry_injective h)

end Name

end lys
