import Lys.RustStd.Str

namespace rust

section Split

variable {α : Type} [DecidableEq α] {c : α} {s front : List α}

/-- `split_inclusive(c)`: the pieces that `c` closes, and what follows the last one unless it
is empty. -/
def split_inclusive (c : α) : List α → List (List α)
  | [] => []
  | x :: xs =>
    if x = c then [x] :: split_inclusive c xs
    else
      match split_inclusive c xs with
      | [] => [[x]]
      | piece :: pieces => (x :: piece) :: pieces

theorem split_inclusive_append (h : c ∉ front) (rest : List α) :
    split_inclusive c (front ++ c :: rest) = (front ++ [c]) :: split_inclusive c rest := by
  induction front with
  | nil => rw [List.nil_append, split_inclusive, if_pos rfl, List.nil_append]
  | cons x front ih =>
    rw [List.mem_cons, not_or] at h
    rw [List.cons_append, split_inclusive, if_neg (Ne.symm h.1), ih h.2, List.cons_append]

/-- Splitting takes out the separators and nothing else. -/
theorem flatten_splitOn (c : α) (s : List α) : (s.splitOn c).flatten = s.filter (· ≠ c) := by
  induction s with
  | nil => rfl
  | cons x s ih =>
    rw [List.splitOn_cons_eq_if_modifyHead]
    by_cases hx : x = c
    · rw [if_pos (by simpa using hx), List.flatten_cons, List.nil_append, ih, List.filter_cons_of_neg (by simpa using hx)]
    · obtain ⟨head, tail, hsplit⟩ := List.exists_cons_of_ne_nil (List.splitOn_ne_nil c s)
      rw [if_neg (by simpa using hx), List.filter_cons_of_pos (by simpa using hx), ← ih, hsplit]
      rfl

/-- `str::strip_suffix(c)`. -/
def strip_suffix (c : α) (s : List α) : Option (List α) := if s.getLast? = some c then some s.dropLast else none

@[simp] theorem strip_suffix_eq_some_iff : strip_suffix c s = some front ↔ s = front ++ [c] := by
  rw [ strip_suffix]
  constructor
  · intro h
    split_ifs at h with hlast
    obtain ⟨front, rfl⟩ := List.getLast?_eq_some_iff.mp hlast
    rw [List.dropLast_concat, Option.some.injEq] at h
    rw [h]
  · rintro rfl
    rw [List.getLast?_concat, if_pos rfl, List.dropLast_concat]

end Split

/-- The line of a piece: its end `"\n"` or `"\r\n"` is not part of it. -/
def line_of_piece (piece : Str) : Str :=
  match strip_suffix '\n' piece with
  | none => piece
  | some line => ( strip_suffix '\r' line).getD line

/-- `str::lines`. -/
def lines (text : Str) : List Str := (split_inclusive '\n' text).map line_of_piece

section Trim

variable {s white : Str}

theorem trim_eq_rdropWhile (s : Str) : trim s = (s.dropWhile is_whitespace).rdropWhile is_whitespace := rfl

theorem rdropWhile_append_of_forall {p : Char → Bool} (h : ∀ c ∈ white, p c = true) :
    (s ++ white).rdropWhile p = s.rdropWhile p := by
  induction white using List.reverseRecOn with
  | nil => rw [List.append_nil]
  | append_singleton white c ih =>
    rw [← List.append_assoc, List.rdropWhile_concat_pos _ _ _ (h c (by simp))]
    exact ih fun c hc => h c (by simp [hc])

theorem trim_append_white (h : ∀ c ∈ white, is_whitespace c = true) : trim (s ++ white) = trim s := by
  rw [trim_eq_rdropWhile, trim_eq_rdropWhile, List.dropWhile_append]
  by_cases hs : s.dropWhile is_whitespace = []
  · rw [hs, List.isEmpty_nil, if_pos rfl, List.dropWhile_eq_nil_iff.mpr h]
  · rw [if_neg (by simpa using hs), rdropWhile_append_of_forall h]

theorem trim_white_append (h : ∀ c ∈ white, is_whitespace c = true) : trim (white ++ s) = trim s := by
  rw [trim_eq_rdropWhile, trim_eq_rdropWhile, List.dropWhile_append_of_pos h]

/-- A text that has no whitespace at its ends is its own trimming. -/
theorem trim_eq_self (hhead : ∀ c ∈ s.head?, is_whitespace c = false)
    (hlast : ∀ c ∈ s.getLast?, is_whitespace c = false) : trim s = s := by
  rw [trim_eq_rdropWhile, List.dropWhile_eq_self_iff.mpr, List.rdropWhile_eq_self_iff]
  · intro hne
    simp [hlast _ (List.getLast?_eq_some_getLast hne)]
  · intro hne
    have hfirst := hhead _ (List.head?_eq_some_head (List.length_pos_iff.mp hne))
    simpa [List.head_eq_getElem] using hfirst

end Trim

theorem trim_concat {c : Char} (h : is_whitespace c = true) (s : Str) : trim (s ++ [c]) = trim s :=
  trim_append_white (by simpa using h)

/-- The end of a line is whitespace. -/
theorem trim_line_of_piece (piece : Str) : trim (line_of_piece piece) = trim piece := by
  unfold line_of_piece
  cases hend : strip_suffix '\n' piece with
  | none => rfl
  | some line =>
    obtain rfl := strip_suffix_eq_some_iff.mp hend
    change trim (( strip_suffix '\r' line).getD line) = _
    rw [trim_concat (by decide)]
    cases hreturn : strip_suffix '\r' line with
    | none => rfl
    | some front =>
      obtain rfl := strip_suffix_eq_some_iff.mp hreturn
      rw [Option.getD_some, trim_concat (by decide)]

/-- The first closed line of a text, trimmed. -/
theorem map_trim_lines_append {line : Str} (h : '\n' ∉ line) (rest : Str) :
    (lines (line ++ '\n' :: rest)).map trim = trim line :: (lines rest).map trim := by
  rw [lines, split_inclusive_append h, List.map_cons, List.map_cons, trim_line_of_piece,
    trim_concat (by decide), lines]

end rust
