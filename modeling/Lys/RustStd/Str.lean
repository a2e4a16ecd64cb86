import Lys.RustStd.Utf8

namespace rust

section Search

variable {α : Type} [DecidableEq α]

/-- `rfind`: the position of the last occurrence of `needle`. -/
def rfind (needle : List α) : List α → Option Nat
  | [] => if needle = [] then some 0 else none
  | x :: xs =>
    match rfind needle xs with
    | some i => some (i + 1)
    | none => if needle.isPrefixOf (x :: xs) then some 0 else none

/-- `contains`: whether `needle` occurs anywhere. -/
def contains (needle : List α) (text : List α) : Bool := (rfind needle text).isSome

theorem rfind_eq_none_iff {needle text : List α} :
    rfind needle text = none ↔ ¬ needle <:+: text := by
  induction text with
  | nil => simp [rfind]
  | cons x xs ih =>
    rw [rfind, List.infix_cons_iff, ← List.isPrefixOf_iff_prefix, not_or, ← ih]
    split <;> simp_all

theorem contains_eq_false_iff {needle text : List α} :
    contains needle text = false ↔ ¬ needle <:+: text := by
  rw [contains, Option.isSome_eq_false_iff, Option.isNone_iff_eq_none, rfind_eq_none_iff]

/-- An occurrence after which no other starts is the one found. -/
theorem rfind_append {needle front back : List α} (hneedle : needle <+: back)
    (hlast : ¬ needle <:+: back.tail) :
    rfind needle (front ++ back) = some front.length := by
  induction front with
  | nil =>
    cases back with
    | nil =>
      obtain rfl := List.prefix_nil.mp hneedle
      exact absurd List.nil_infix hlast
    | cons x xs =>
      rw [List.tail_cons] at hlast
      rw [List.nil_append, rfind, rfind_eq_none_iff.mpr hlast]
      simpa [List.isPrefixOf_iff_prefix] using hneedle
  | cons y front ih => rw [List.cons_append, rfind, ih, List.length_cons]

/-- The position found by `rfind` cuts the text around the last occurrence. -/
theorem rfind_eq_some_iff {needle text : List α} (hne : needle ≠ []) {i : Nat} :
    rfind needle text = some i ↔ ∃ front back, text = front ++ (needle ++ back) ∧ front.length = i ∧
      ¬ needle <:+: (needle ++ back).tail := by
  constructor
  · intro h
    induction text generalizing i with
    | nil => simp [rfind, hne] at h
    | cons x xs ih =>
      rw [rfind] at h
      split at h
      next j hj =>
        obtain rfl := Option.some.inj h
        obtain ⟨front, back, rfl, rfl, hlast⟩ := ih hj
        exact ⟨x :: front, back, rfl, rfl, hlast⟩
      next hnone =>
        split at h
        next hstarts =>
          obtain rfl := Option.some.inj h
          obtain ⟨back, hback⟩ := List.isPrefixOf_iff_prefix.mp hstarts
          refine ⟨[], back, hback.symm, rfl, ?_⟩
          rw [hback, List.tail_cons]
          exact rfind_eq_none_iff.mp hnone
        next => cases h
  · rintro ⟨front, back, rfl, rfl, hlast⟩
    exact rfind_append (List.prefix_append needle back) hlast

end Search

section Lines

variable {α : Type}

/-- Lines written one after the other, each closed by `sep`. -/
def join_lines (sep : α) (lines : List (List α)) : List α := lines.flatMap (· ++ [sep])

@[simp] theorem join_lines_nil (sep : α) : join_lines sep [] = [] := rfl

@[simp] theorem join_lines_cons (sep : α) (line : List α) (lines : List (List α)) :
    join_lines sep (line :: lines) = line ++ sep :: join_lines sep lines := by
  simp [join_lines]

theorem join_lines_eq_intercalate {sep : α} {lines : List (List α)} (hne : lines ≠ []) :
    join_lines sep lines = [sep].intercalate lines ++ [sep] := by
  induction lines with
  | nil => exact absurd rfl hne
  | cons line lines ih =>
    cases lines with
    | nil => simp
    | cons line' lines =>
      rw [join_lines_cons, ih (by simp), List.intercalate_cons_cons]
      simp

theorem getLast?_join_lines {sep : α} {lines : List (List α)} (hne : lines ≠ []) :
    (join_lines sep lines).getLast? = some sep := by
  rw [join_lines_eq_intercalate hne, List.getLast?_concat]

/-- No occurrence of `sep` twice in a row starts inside a line. -/
theorem infix_append_of_not_mem {sep : α} {line text : List α} (h : sep ∉ line) :
    [sep, sep] <:+: line ++ text ↔ [sep, sep] <:+: text := by
  induction line with
  | nil => simp
  | cons x line ih =>
    have hx : sep ≠ x := fun heq => h (by simp [heq])
    rw [List.cons_append, List.infix_cons_iff, ih fun hmem => h (by simp [hmem])]
    constructor
    · rintro (hstarts | hinfix)
      · exact absurd (List.cons_prefix_cons.mp hstarts).1 hx
      · exact hinfix
    · exact .inr

/-- Closed lines none of which is empty leave no blank line. -/
theorem not_infix_join_lines {sep : α} {lines : List (List α)} (hempty : [] ∉ lines)
    (hsep : ∀ line ∈ lines, sep ∉ line) : ¬ [sep, sep] <:+: sep :: join_lines sep lines := by
  induction lines with
  | nil => simp [List.infix_cons_iff]
  | cons line lines ih =>
    have hline := hsep line (by simp)
    cases line with
    | nil => simp at hempty
    | cons x line =>
      have hx : sep ≠ x := fun heq => hline (by simp [heq])
      rw [join_lines_cons, List.infix_cons_iff, infix_append_of_not_mem hline, not_or]
      refine ⟨?_, ih (fun h => hempty (by simp [h])) fun line hmem => hsep line (by simp [hmem])⟩
      intro hstarts
      exact hx (List.cons_prefix_cons.mp (List.cons_prefix_cons.mp hstarts).2).1

/-- An empty line is a blank line. -/
theorem infix_join_lines_of_mem {sep : α} {lines : List (List α)} (h : [] ∈ lines) :
    [sep, sep] <:+: sep :: join_lines sep lines := by
  obtain ⟨front, back, rfl⟩ := List.append_of_mem h
  clear h
  induction front with
  | nil => exact ⟨[], join_lines sep back, by simp⟩
  | cons line front ih =>
    rw [List.cons_append, join_lines_cons]
    exact ih.trans (List.IsSuffix.isInfix ⟨sep :: line, by simp⟩)

variable [DecidableEq α]

/-- The lines of a text that ends with `sep`: `text[..len - 1].split(sep)`. -/
def split_lines (sep : α) (text : List α) : List (List α) := text.dropLast.splitOn sep

theorem split_lines_ne_nil (sep : α) (text : List α) : split_lines sep text ≠ [] :=
  List.splitOn_ne_nil sep _

/-- Splitting gives back the lines that were joined. -/
theorem split_lines_join_lines {sep : α} {lines : List (List α)} (hne : lines ≠ [])
    (hsep : ∀ line ∈ lines, sep ∉ line) : split_lines sep (join_lines sep lines) = lines := by
  rw [split_lines, join_lines_eq_intercalate hne, List.dropLast_concat,
    List.splitOn_intercalate sep hsep hne]

/-- Joining gives back a closed text that was split. -/
theorem join_lines_split_lines {sep : α} {text : List α} (hend : text.getLast? = some sep) :
    join_lines sep (split_lines sep text) = text := by
  obtain ⟨front, rfl⟩ := List.getLast?_eq_some_iff.mp hend
  rw [join_lines_eq_intercalate (split_lines_ne_nil sep _), split_lines, List.dropLast_concat,
    List.intercalate_splitOn]

theorem not_mem_of_mem_splitOn {sep : α} {text line : List α} (h : line ∈ text.splitOn sep) :
    sep ∉ line := by
  induction text generalizing line with
  | nil =>
    rw [List.splitOn_nil, List.mem_singleton] at h
    simp [h]
  | cons x text ih =>
    rw [List.splitOn_cons_eq_if_modifyHead] at h
    split at h
    next =>
      rcases List.mem_cons.mp h with rfl | h
      · simp
      · exact ih h
    next hx =>
      obtain ⟨head, tail, hsplit⟩ := List.exists_cons_of_ne_nil (List.splitOn_ne_nil sep text)
      rw [hsplit, List.modifyHead_cons] at h
      rcases List.mem_cons.mp h with rfl | h
      · have hhead := @ih head (by simp [hsplit])
        have hsep : sep ≠ x := fun heq => hx (by simp [heq])
        simp [hhead, hsep]
      · exact ih (by simp [hsplit, h])

theorem not_mem_of_mem_split_lines {sep : α} {text line : List α} (h : line ∈ split_lines sep text) :
    sep ∉ line := not_mem_of_mem_splitOn h

end Lines

section Cut

variable {α : Type} [DecidableEq α]

/-- `str::strip_prefix`. -/
def strip_prefix (front s : List α) : Option (List α) := List.dropPrefix? s front

@[simp] theorem strip_prefix_eq_some_iff {front s back : List α} :
    strip_prefix front s = some back ↔ s = front ++ back := by
  rw [ strip_prefix, List.dropPrefix?_eq_some_iff]
  constructor
  · rintro ⟨_, rfl, h⟩
    rw [eq_of_beq h]
  · rintro rfl
    exact ⟨front, rfl, beq_self_eq_true front⟩

/-- `str::split_once(c)`. -/
def split_once (c : α) : List α → Option (List α × List α)
  | [] => none
  | x :: xs => if x = c then some ([], xs) else (split_once c xs).map fun cut => (x :: cut.1, cut.2)

theorem split_once_eq_some_iff {c : α} {s front back : List α} :
    split_once c s = some (front, back) ↔ s = front ++ c :: back ∧ c ∉ front := by
  induction s generalizing front with
  | nil => simp [split_once]
  | cons x xs ih =>
    rw [split_once]
    split
    next hx =>
      subst hx
      cases front with
      | nil => simp
      | cons y front =>
        constructor
        · intro h
          simp at h
        · rintro ⟨h, hmem⟩
          exact absurd ((List.cons.inj h).1 ▸ List.mem_cons_self) hmem
    next hx =>
      cases front with
      | nil => simp [hx]
      | cons y front =>
        simp only [Option.map_eq_some_iff, Prod.mk.injEq, List.cons.injEq, List.cons_append,
          List.mem_cons, not_or]
        constructor
        · rintro ⟨cut, hcut, ⟨rfl, rfl⟩, rfl⟩
          obtain ⟨rfl, hmem⟩ := ih.mp hcut
          exact ⟨⟨rfl, rfl⟩, Ne.symm hx, hmem⟩
        · rintro ⟨⟨rfl, hxs⟩, _, hmem⟩
          exact ⟨(front, back), ih.mpr ⟨hxs, hmem⟩, ⟨rfl, rfl⟩, rfl⟩

/-- `splitn(count, c)`. -/
def splitn (c : α) : Nat → List α → List (List α)
  | 0, _ => []
  | 1, s => [s]
  | count + 2, s =>
    match split_once c s with
    | some (front, back) => front :: splitn c (count + 1) back
    | none => [s]

/-- Three parts are cut at the first two separators. -/
theorem splitn_three_eq_iff {c : α} {s first second third : List α} :
    splitn c 3 s = [first, second, third] ↔
      s = first ++ c :: (second ++ c :: third) ∧ c ∉ first ∧ c ∉ second := by
  have htwo : ∀ {s second third : List α}, splitn c 2 s = [second, third] ↔
      split_once c s = some (second, third) := by
    intro s second third
    rw [splitn]
    cases hcut : split_once c s with
    | none => simp
    | some cut => simp [splitn, Prod.ext_iff]
  rw [splitn]
  cases hcut : split_once c s with
  | none =>
    have hnot : ∀ back, s = first ++ c :: back → c ∉ first → False := by
      intro back hs hfirst
      rw [split_once_eq_some_iff.mpr ⟨hs, hfirst⟩] at hcut
      cases hcut
    constructor
    · intro h
      simp at h
    · rintro ⟨hs, hfirst, _⟩
      exact (hnot _ hs hfirst).elim
  | some cut =>
    obtain ⟨front, back⟩ := cut
    obtain ⟨rfl, hfront⟩ := split_once_eq_some_iff.mp hcut
    rw [List.cons.injEq, htwo, split_once_eq_some_iff]
    constructor
    · rintro ⟨rfl, rfl, hsecond⟩
      exact ⟨rfl, hfront, hsecond⟩
    · rintro ⟨hs, hfirst, hsecond⟩
      have hsame := split_once_eq_some_iff.mpr ⟨hs, hfirst⟩
      rw [hcut] at hsame
      obtain ⟨rfl, rfl⟩ := Prod.mk.inj (Option.some.inj hsame)
      exact ⟨rfl, rfl, hsecond⟩

end Cut

/-- `char::is_whitespace`: the Unicode `White_Space` property. -/
def is_whitespace (c : Char) : Bool :=
  (0x9 ≤ c.toNat && c.toNat ≤ 0xd) || c.toNat == 0x20 || c.toNat == 0x85 || c.toNat == 0xa0 ||
    c.toNat == 0x1680 || (0x2000 ≤ c.toNat && c.toNat ≤ 0x200a) || c.toNat == 0x2028 ||
    c.toNat == 0x2029 || c.toNat == 0x202f || c.toNat == 0x205f || c.toNat == 0x3000

/-- `str::trim`. -/
def trim (s : Str) : Str := ((s.dropWhile is_whitespace).reverse.dropWhile is_whitespace).reverse

/-- `u64`'s `Display`: decimal without leading zeros. -/
def u64_to_string (n : UInt64) : Str := Nat.toDigits 10 n.toNat

/-- `u64::from_str`, with the texts of `ParseIntError`. An optional leading `'+'` is
accepted. -/
def parse_u64 (s : Str) : Except String UInt64 :=
  let digits := ( strip_prefix ['+'] s).getD s
  if s = [] then .error "cannot parse integer from empty string"
  else if digits = [] ∨ ¬ digits.all Char.isDigit then .error "invalid digit found in string"
  else if Nat.ofDigitChars 10 digits 0 < 2 ^ 64 then .ok (UInt64.ofNat (Nat.ofDigitChars 10 digits 0))
  else .error "number too large to fit in target type"

theorem isDigit_of_mem_u64_to_string {n : UInt64} {c : Char} (h : c ∈ u64_to_string n) :
    c.isDigit = true :=
  Nat.isDigit_of_mem_toDigits (by decide) (by decide) h

theorem all_isDigit_u64_to_string (n : UInt64) : (u64_to_string n).all Char.isDigit = true :=
  List.all_eq_true.mpr fun _ => isDigit_of_mem_u64_to_string

theorem toNat_lt_of_isDigit {c : Char} (h : c.isDigit = true) : 0x30 ≤ c.toNat ∧ c.toNat < 0x3a := by
  have hbounds := Char.isDigit_iff_toNat.mp h
  simp at hbounds
  omega

theorem newline_not_mem_u64_to_string {n : UInt64} : '\n' ∉ u64_to_string n := fun h =>
  absurd (isDigit_of_mem_u64_to_string h) (by decide)

theorem u64_to_string_ne_nil (n : UInt64) : u64_to_string n ≠ [] := Nat.toDigits_ne_nil

theorem head?_toDigits_ne_zero {n : Nat} (h : 0 < n) : (Nat.toDigits 10 n).head? ≠ some '0' := by
  induction n using Nat.strong_induction_on with
  | _ n ih =>
    rcases Nat.lt_or_ge n 10 with hlt | hge
    · rw [Nat.toDigits_of_lt_base hlt]
      interval_cases n <;> decide
    · rw [Nat.toDigits_of_base_le (by decide) hge, List.head?_append_of_ne_nil _ Nat.toDigits_ne_nil]
      exact ih (n / 10) (by omega) (by omega)

/-- Only `"0"` starts with a zero. -/
theorem length_u64_to_string_of_head? {n : UInt64} (h : (u64_to_string n).head? = some '0') :
    (u64_to_string n).length = 1 := by
  rcases Nat.eq_zero_or_pos n.toNat with hzero | hpos
  · rw [u64_to_string, hzero]
    decide
  · exact absurd h (head?_toDigits_ne_zero hpos)

/-- On a digit string the sign is absent and only the bound can fail. -/
theorem parse_u64_digits {s : Str} (hne : s ≠ []) (hdigits : s.all Char.isDigit = true) :
    parse_u64 s = if Nat.ofDigitChars 10 s 0 < 2 ^ 64 then .ok (UInt64.ofNat (Nat.ofDigitChars 10 s 0))
      else .error "number too large to fit in target type" := by
  have hsign : strip_prefix ['+'] s = none := by
    rw [Option.eq_none_iff_forall_ne_some]
    intro back h
    rw [strip_prefix_eq_some_iff.mp h] at hdigits
    simp at hdigits
  simp [parse_u64, hsign, hne, hdigits]

/-- Digit strings of one length are told apart by their values. -/
theorem eq_of_ofDigitChars_eq {s t : Str} (hlength : s.length = t.length) (hs : s.all Char.isDigit = true)
    (ht : t.all Char.isDigit = true) (h : Nat.ofDigitChars 10 s 0 = Nat.ofDigitChars 10 t 0) : s = t := by
  induction s using List.reverseRecOn generalizing t with
  | nil => exact (List.length_eq_zero_iff.mp hlength.symm).symm
  | append_singleton s c ih =>
    obtain rfl | ⟨t, d, rfl⟩ := List.eq_nil_or_concat' t
    · simp at hlength
    · rw [List.all_append, Bool.and_eq_true, List.all_cons, List.all_nil, Bool.and_true] at hs ht
      have hc := toNat_lt_of_isDigit hs.2
      have hd := toNat_lt_of_isDigit ht.2
      rw [Nat.ofDigitChars_append, Nat.ofDigitChars_append, Nat.ofDigitChars_cons, Nat.ofDigitChars_cons,
        Nat.ofDigitChars_nil, Nat.ofDigitChars_nil, show '0'.toNat = 48 from rfl] at h
      have hvalue : Nat.ofDigitChars 10 s 0 = Nat.ofDigitChars 10 t 0 := by omega
      have hchar : c.toNat = d.toNat := by omega
      rw [ih (by simpa using hlength) hs.1 ht.1 hvalue, Char.toNat_inj.mp hchar]

theorem length_u64_to_string_le (n : UInt64) : (u64_to_string n).length ≤ 20 :=
  (Nat.length_toDigits_le_iff (by decide) (by decide)).mpr (n.toNat_lt.trans (by decide))

@[simp] theorem parse_u64_to_string (n : UInt64) : parse_u64 (u64_to_string n) = .ok n := by
  rw [parse_u64_digits (u64_to_string_ne_nil n) (all_isDigit_u64_to_string n)]
  have hvalue : Nat.ofDigitChars 10 (u64_to_string n) 0 = n.toNat := by simp [u64_to_string]
  rw [hvalue, if_pos n.toNat_lt, UInt64.ofNat_toNat]

theorem digitChar_toNat_sub {c : Char} (h : c.isDigit = true) : Nat.digitChar (c.toNat - 48) = c := by
  have hc := toNat_lt_of_isDigit h
  apply Char.toNat_inj.mp
  rw [Nat.toNat_digitChar_of_lt_ten (by omega)]
  omega

/-- A digit string without a leading zero is the decimal of its value. -/
theorem toDigits_ofDigitChars {s : Str} (hne : s ≠ []) (hdigits : s.all Char.isDigit = true)
    (hzero : s.head? = some '0' → s.length = 1) : Nat.toDigits 10 (Nat.ofDigitChars 10 s 0) = s := by
  induction s using List.reverseRecOn with
  | nil => exact absurd rfl hne
  | append_singleton s c ih =>
    rw [List.all_append, Bool.and_eq_true, List.all_cons, List.all_nil, Bool.and_true] at hdigits
    have hc := toNat_lt_of_isDigit hdigits.2
    rw [Nat.ofDigitChars_append, Nat.ofDigitChars_cons, Nat.ofDigitChars_nil, show '0'.toNat = 48 from rfl]
    cases s with
    | nil =>
      rw [Nat.ofDigitChars_nil, Nat.mul_zero, Nat.zero_add, Nat.toDigits_of_lt_base (by omega),
        digitChar_toNat_sub hdigits.2, List.nil_append]
    | cons d s =>
      have hd : d ≠ '0' := by
        intro hd
        have hlength := hzero (by simp [hd])
        simp at hlength
      have hfront := ih (by simp) hdigits.1 fun h => absurd (Option.some.inj h) hd
      have hpos : Nat.ofDigitChars 10 (d :: s) 0 ≠ 0 := by
        intro hvalue
        rw [hvalue, Nat.toDigits_zero] at hfront
        exact hd (List.cons.inj hfront).1.symm
      rw [Nat.toDigits_of_base_le (by decide) (by omega),
        show (10 * Nat.ofDigitChars 10 (d :: s) 0 + (c.toNat - 48)) / 10 = Nat.ofDigitChars 10 (d :: s) 0 by omega,
        show (10 * Nat.ofDigitChars 10 (d :: s) 0 + (c.toNat - 48)) % 10 = c.toNat - 48 by omega, hfront,
        digitChar_toNat_sub hdigits.2]

/-- A digit string without a leading zero is parsed only from the decimal of the number. -/
theorem eq_u64_to_string_of_parse_u64 {s : Str} {n : UInt64} (hne : s ≠ []) (hdigits : s.all Char.isDigit = true)
    (hzero : s.head? = some '0' → s.length = 1) (h : parse_u64 s = .ok n) : s = u64_to_string n := by
  rw [parse_u64_digits hne hdigits] at h
  split at h
  next hbound =>
    have hvalue : Nat.ofDigitChars 10 s 0 = n.toNat := by
      rw [← Except.ok.inj h, UInt64.toNat_ofNat', Nat.mod_eq_of_lt hbound]
    rw [u64_to_string, ← hvalue, toDigits_ofDigitChars hne hdigits hzero]
  next => cases h

end rust
