import Lys.Cli.Pem
import Lys.Log.Reference

open rust posix

namespace lys

/-- A line of a file: its content between whitespace, and whether `"\r\n"` ends it. -/
structure FileLine where
  leading : Str
  content : Str
  trailing : Str
  crlf : Bool
  white : (leading ++ trailing).all is_whitespace = true
  one_line : '\n' ∉ leading ++ content ++ trailing
deriving DecidableEq

def FileLine.text (line : FileLine) : Str :=
  line.leading ++ line.content ++ line.trailing ++ if line.crlf then ['\r', '\n'] else ['\n']

def file_text (ls : List FileLine) : Str := ls.flatMap FileLine.text

/-- A line without whitespace around it, ended by a newline. -/
def FileLine.Plain (line : FileLine) : Prop := line.leading = [] ∧ line.trailing = [] ∧ line.crlf = false

instance : DecidablePred FileLine.Plain := fun line =>
  inferInstanceAs (Decidable (line.leading = [] ∧ line.trailing = [] ∧ line.crlf = false))

instance : DecidablePred rfc4648.IsBase64Char := fun c => inferInstanceAs (Decidable (c ∈ rfc4648.alphabet ∨ c = '='))

/-- A piece of a base64 body. -/
def IsBody (content : Str) : Prop := ∀ c ∈ content, rfc4648.IsBase64Char c

instance : DecidablePred IsBody := fun content => List.decidableBAll rfc4648.IsBase64Char content

/-- One change to how a certificate is laid out in its file. -/
inductive Edit : List FileLine → List FileLine → Prop
  /-- Other whitespace around a line, or the other line end. -/
  | dress (front back : List FileLine) (line line' : FileLine) (hcontent : line'.content = line.content) :
    Edit (front ++ line :: back) (front ++ line' :: back)
  | blank (front back : List FileLine) (line : FileLine) (hcontent : line.content = []) :
    Edit (front ++ back) (front ++ line :: back)
  /-- The body cut into lines at other positions. -/
  | wrap (front ls ls' back : List FileLine) (hbody : ∀ line ∈ ls ++ ls', IsBody line.content)
    (hsame : (ls.map FileLine.content).flatten = (ls'.map FileLine.content).flatten) :
    Edit (front ++ (ls ++ back)) (front ++ (ls' ++ back))

/-- The texts that `encode_certificate der` becomes by such changes. -/
def Reframed [Base64] (der : Bytes) (text : Str) : Prop :=
  ∃ ls ls', file_text ls = encode_certificate der ∧ (∀ line ∈ ls, line.Plain) ∧ Relation.ReflTransGen Edit ls ls' ∧
    text = file_text ls'

/-- What a reader of a certificate file goes by: the characters of the body, and the other
lines. -/
def symbols (contents : List Str) : List (Str ⊕ Char) :=
  contents.flatMap fun content => if IsBody content then content.map .inr else [.inl content]

section Symbols

variable {content body : Str} {contents : List Str}

@[simp] theorem symbols_nil : symbols [] = [] := rfl

theorem symbols_append (front back : List Str) : symbols (front ++ back) = symbols front ++ symbols back :=
  List.flatMap_append

theorem symbols_cons (content : Str) (contents : List Str) :
    symbols (content :: contents) = symbols [content] ++ symbols contents := symbols_append [content] contents

theorem symbols_body (h : IsBody content) : symbols [content] = content.map .inr := by
  simp [symbols, h]

theorem isBody_nil : IsBody [] := by
  intro c hc
  cases hc

theorem symbols_nil_content : symbols [[]] = [] := symbols_body isBody_nil

theorem symbols_other (h : ¬ IsBody content) : symbols [content] = [.inl content] := by
  simp [symbols, h]

theorem symbols_bodies (h : ∀ content ∈ contents, IsBody content) : symbols contents = contents.flatten.map .inr := by
  induction contents with
  | nil => rfl
  | cons content contents ih =>
    rw [symbols_cons, symbols_body (h content (by simp)), ih fun c hc => h c (by simp [hc]), List.flatten_cons,
      List.map_append]

/-- No change to the layout touches the symbols. -/
theorem symbols_eq_of_edit {ls ls' : List FileLine} (h : Edit ls ls') :
    symbols (ls'.map FileLine.content) = symbols (ls.map FileLine.content) := by
  cases h with
  | dress front back line line' hcontent =>
    rw [List.map_append, List.map_append, List.map_cons, List.map_cons, hcontent]
  | blank front back line hcontent =>
    rw [List.map_append, List.map_append, List.map_cons, symbols_append, symbols_append, symbols_cons, hcontent,
      symbols_nil_content, List.nil_append]
  | wrap front ls ls' back hbody hsame =>
    have hls : ∀ content ∈ ls.map FileLine.content, IsBody content := by
      simpa using fun line hline => hbody line (List.mem_append_left _ hline)
    have hls' : ∀ content ∈ ls'.map FileLine.content, IsBody content := by
      simpa using fun line hline => hbody line (List.mem_append_right _ hline)
    simp only [List.map_append, symbols_append, symbols_bodies hls, symbols_bodies hls', hsame]

theorem symbols_eq_of_edits {ls ls' : List FileLine} (h : Relation.ReflTransGen Edit ls ls') :
    symbols (ls'.map FileLine.content) = symbols (ls.map FileLine.content) := by
  induction h with
  | refl => rfl
  | tail _ hedit ih => rw [symbols_eq_of_edit hedit, ih]

end Symbols

section Read

variable {content body : Str} {contents : List Str}

theorem IsBase64Char.not_white {c : Char} (h : rfc4648.IsBase64Char c) : is_whitespace c = false := by
  obtain ⟨hlo, hhi⟩ := h.printable
  simp only [is_whitespace, Bool.or_eq_false_iff, Bool.and_eq_false_iff, decide_eq_false_iff_not, beq_eq_false_iff_ne]
  omega

theorem IsBody.trim (h : IsBody content) : trim content = content :=
  trim_eq_self (fun _ hc => IsBase64Char.not_white (h _ (List.mem_of_mem_head? hc)))
    fun _ hc => IsBase64Char.not_white (h _ (List.mem_of_mem_getLast? hc))

theorem not_isBody_of_dash (h : '-' ∈ content) : ¬ IsBody content := fun hbody =>
  absurd (hbody '-' h) (by decide)

theorem not_isBody_begin : ¬ IsBody BEGIN_CERTIFICATE := not_isBody_of_dash (by decide)

theorem not_isBody_end : ¬ IsBody END_CERTIFICATE := not_isBody_of_dash (by decide)

/-- The contents that are not blank, trimmed. -/
def nonblank (contents : List Str) : List Str := (contents.map trim).filter fun line => !line.isEmpty

theorem nonblank_cons (content : Str) (contents : List Str) :
    nonblank (content :: contents) = nonblank [content] ++ nonblank contents := by
  rw [nonblank, nonblank, nonblank, ← List.filter_append]
  rfl

theorem nonblank_of_trim (hne : content ≠ []) (htrim : trim content = content) : nonblank [content] = [content] := by
  simp [nonblank, htrim, hne]

/-- Nothing but blank lines shows no symbol. -/
theorem nonblank_of_symbols_nil (h : symbols contents = []) : nonblank contents = [] := by
  induction contents with
  | nil => rfl
  | cons content contents ih =>
    rw [symbols_cons, List.append_eq_nil_iff] at h
    by_cases hbody : IsBody content
    · rw [symbols_body hbody, List.map_eq_nil_iff] at h
      rw [nonblank_cons, ih h.2, h.1]
      rfl
    · rw [symbols_other hbody] at h
      cases h.1

/-- The closing boundary comes after the body. -/
theorem exists_of_map_append_eq {line : Str} {back : List (Str ⊕ Char)}
    (h : content.map .inr ++ back = body.map .inr ++ [.inl line]) :
    ∃ rest, body = content ++ rest ∧ back = rest.map .inr ++ [.inl line] := by
  induction content generalizing body with
  | nil => exact ⟨body, rfl, h⟩
  | cons c content ih =>
    cases body with
    | nil => cases h
    | cons c' body =>
      rw [List.map_cons, List.map_cons, List.cons_append, List.cons_append, List.cons.injEq, Sum.inr.injEq] at h
      obtain ⟨rfl, h⟩ := h
      obtain ⟨rest, rfl, hback⟩ := ih h
      exact ⟨rest, rfl, hback⟩

/-- The body and the closing boundary, read off the symbols. -/
theorem nonblank_of_symbols_body (h : symbols contents = body.map .inr ++ [.inl END_CERTIFICATE]) :
    ∃ body_lines, nonblank contents = body_lines ++ [END_CERTIFICATE] ∧ body_lines.flatten = body := by
  induction contents generalizing body with
  | nil => simp at h
  | cons content contents ih =>
    rw [symbols_cons] at h
    by_cases hbody : IsBody content
    · rw [symbols_body hbody] at h
      obtain ⟨rest, rfl, hrest⟩ : ∃ rest, body = content ++ rest ∧
          symbols contents = rest.map .inr ++ [.inl END_CERTIFICATE] :=
        exists_of_map_append_eq h
      obtain ⟨body_lines, hlines, rfl⟩ := ih hrest
      rw [nonblank_cons, hlines]
      by_cases hblank : content = []
      · subst hblank
        exact ⟨body_lines, rfl, rfl⟩
      · exact ⟨content :: body_lines, by rw [nonblank_of_trim hblank hbody.trim]; rfl, rfl⟩
    · rw [symbols_other hbody] at h
      cases body with
      | cons c body => simp at h
      | nil =>
        simp only [List.map_nil, List.nil_append, List.cons_append, List.cons.injEq, Sum.inl.injEq] at h
        obtain ⟨rfl, hnone⟩ := h
        refine ⟨[], ?_, rfl⟩
        rw [nonblank_cons, nonblank_of_symbols_nil hnone]
        decide

/-- A whole block, read off the symbols. -/
theorem nonblank_of_symbols
    (h : symbols contents = .inl BEGIN_CERTIFICATE :: (body.map .inr ++ [.inl END_CERTIFICATE])) :
    ∃ body_lines, nonblank contents = BEGIN_CERTIFICATE :: (body_lines ++ [END_CERTIFICATE]) ∧
      body_lines.flatten = body := by
  induction contents with
  | nil => cases h
  | cons content contents ih =>
    rw [symbols_cons] at h
    by_cases hbody : IsBody content
    · rw [symbols_body hbody] at h
      cases content with
      | cons c content => simp at h
      | nil =>
        obtain ⟨body_lines, hlines, hflatten⟩ := ih h
        refine ⟨body_lines, ?_, hflatten⟩
        rw [nonblank_cons, hlines]
        rfl
    · rw [symbols_other hbody] at h
      simp only [List.nil_append, List.cons_append, List.cons.injEq, Sum.inl.injEq] at h
      obtain ⟨rfl, hrest⟩ := h
      obtain ⟨body_lines, hlines, hflatten⟩ := nonblank_of_symbols_body hrest
      refine ⟨body_lines, ?_, hflatten⟩
      rw [nonblank_cons, hlines, nonblank_of_trim (by decide) (by decide)]
      rfl

end Read

section Text

variable {ls : List FileLine} {body : Str}

theorem FileLine.trim_text (line : FileLine) : ∃ front, line.text = front ++ ['\n'] ∧ '\n' ∉ front ∧
    trim front = trim line.content := by
  obtain ⟨leading, content, trailing, crlf, hwhite, hone⟩ := line
  rw [List.all_append, Bool.and_eq_true, List.all_eq_true, List.all_eq_true] at hwhite
  obtain ⟨hleading, htrailing⟩ := hwhite
  have htrim : trim (leading ++ content ++ trailing) = trim content := by
    rw [trim_append_white htrailing, trim_white_append hleading]
  cases crlf with
  | false => exact ⟨leading ++ content ++ trailing, rfl, hone, htrim⟩
  | true =>
    refine ⟨leading ++ content ++ trailing ++ ['\r'], by simp [FileLine.text], ?_, ?_⟩
    · rw [List.mem_append, not_or]
      exact ⟨hone, by decide⟩
    · rw [trim_concat (by decide), htrim]

/-- What the decoder's lines show is the content of the file's lines. -/
theorem nonblank_lines_file_text (ls : List FileLine) :
    nonblank_lines (file_text ls) = nonblank (ls.map FileLine.content) := by
  have htrim : (lines (file_text ls)).map trim = (ls.map FileLine.content).map trim := by
    induction ls with
    | nil => rfl
    | cons line ls ih =>
      obtain ⟨front, htext, hone, htrim⟩ := line.trim_text
      rw [file_text, List.flatMap_cons, htext, List.append_assoc, List.singleton_append]
      rw [map_trim_lines_append hone, htrim, ← file_text, ih]
      rfl
  rw [nonblank_lines, htrim, nonblank]

/-- The breaks of the wrapping are all it adds. -/
theorem filter_wrap_body (index : Nat) (hbody : '\n' ∉ body) : (wrap_body index body).filter (· ≠ '\n') = body := by
  induction body generalizing index with
  | nil => rfl
  | cons character rest ih =>
    rw [List.mem_cons, not_or] at hbody
    have hkeep : decide (character ≠ '\n') = true := by simpa using Ne.symm hbody.1
    rw [wrap_body]
    split_ifs
    · rw [List.filter_cons_of_neg (by decide), List.filter_cons, if_pos hkeep, ih _ hbody.2]
    · rw [List.filter_cons, if_pos hkeep, ih _ hbody.2]

theorem content_of_plain (hplain : ∀ line ∈ ls, line.Plain) :
    file_text ls = join_lines '\n' (ls.map FileLine.content) := by
  induction ls with
  | nil => rfl
  | cons line ls ih =>
    obtain ⟨hleading, htrailing, hcrlf⟩ := hplain line List.mem_cons_self
    rw [List.map_cons, join_lines_cons, ← ih fun line hline => hplain line (List.mem_cons_of_mem _ hline)]
    rw [file_text, List.flatMap_cons, FileLine.text, hleading, htrailing, hcrlf]
    simp [file_text]

/-- Lines that end nowhere else are the contents of plain ones. -/
theorem exists_plain_lines {contents : List Str} (h : ∀ content ∈ contents, '\n' ∉ content) :
    ∃ ls : List FileLine, ls.map FileLine.content = contents ∧ ∀ line ∈ ls, line.Plain := by
  induction contents with
  | nil => exact ⟨[], rfl, by simp⟩
  | cons content contents ih =>
    obtain ⟨ls, hcontents, hplain⟩ := ih fun c hc => h c (List.mem_cons_of_mem _ hc)
    have hone : '\n' ∉ [] ++ content ++ ([] : Str) := by simpa using h content List.mem_cons_self
    refine ⟨⟨[], content, [], false, rfl, hone⟩ :: ls, by rw [List.map_cons, hcontents], ?_⟩
    rintro line (_ | ⟨_, hline⟩)
    · exact ⟨rfl, rfl, rfl⟩
    · exact hplain line hline

variable [Base64] {der : Bytes}

/-- The encoding is one of its own layouts: plain lines, none of them changed. -/
theorem reframed_encode_certificate : Reframed der (encode_certificate der) := by
  have hend : (encode_certificate der).getLast? = some '\n' := by
    rw [encode_certificate, List.getLast?_concat]
  obtain ⟨ls, hcontents, hplain⟩ : ∃ ls : List FileLine, ls.map FileLine.content = split_lines '\n' (encode_certificate der) ∧
      ∀ line ∈ ls, line.Plain :=
    exists_plain_lines fun content hcontent => not_mem_of_mem_split_lines hcontent
  have htext : file_text ls = encode_certificate der := by
    rw [content_of_plain hplain, hcontents, join_lines_split_lines hend]
  exact ⟨ls, ls, htext, hplain, .refl, htext.symm⟩

theorem split_lines_encode_certificate (hne : Base64.encode der ≠ []) :
    split_lines '\n' (encode_certificate der) =
      BEGIN_CERTIFICATE :: ((wrap_body 0 (Base64.encode der)).splitOn '\n' ++ [END_CERTIFICATE]) := by
  have htext : (encode_certificate der).dropLast =
      BEGIN_CERTIFICATE ++ '\n' :: (wrap_body 0 (Base64.encode der) ++ '\n' :: END_CERTIFICATE) := by
    rw [encode_certificate, List.dropLast_concat, if_neg (by simpa using hne)]
    simp
  rw [split_lines, htext, List.splitOn_append_cons_self_of_not_mem (by decide), List.splitOn_append_cons_self,
    List.splitOn_eq_singleton (show '\n' ∉ END_CERTIFICATE by decide)]

/-- The symbols of the encoding itself. -/
theorem symbols_of_encode [StandardBase64] (hder : der ≠ []) (htext : file_text ls = encode_certificate der)
    (hplain : ∀ line ∈ ls, line.Plain) :
    symbols (ls.map FileLine.content) =
      .inl BEGIN_CERTIFICATE :: ((rfc4648.encode der).map .inr ++ [.inl END_CERTIFICATE]) := by
  have hbody : Base64.encode der = rfc4648.encode der := StandardBase64.encode_eq der
  have hne : Base64.encode der ≠ [] := by
    rw [hbody]
    exact fun hempty => hder (rfc4648.encode_injective hempty)
  have hnewline : '\n' ∉ Base64.encode der := by
    rw [hbody]
    exact fun hmem => absurd (rfc4648.isBase64Char_of_mem_encode hmem) (by decide)
  have hcontents : ls.map FileLine.content =
      BEGIN_CERTIFICATE :: ((wrap_body 0 (Base64.encode der)).splitOn '\n' ++ [END_CERTIFICATE]) := by
    have hls : ls.map FileLine.content ≠ [] := by
      rintro hnil
      rw [List.map_eq_nil_iff] at hnil
      rw [hnil] at htext
      cases htext
    rw [← split_lines_encode_certificate hne, ← htext, content_of_plain hplain, split_lines_join_lines hls]
    intro content hcontent
    obtain ⟨line, _, rfl⟩ := List.mem_map.mp hcontent
    exact fun hmem => line.one_line (by simp [hmem])
  have hflatten : ((wrap_body 0 (Base64.encode der)).splitOn '\n').flatten = rfc4648.encode der := by
    rw [flatten_splitOn, filter_wrap_body 0 hnewline, hbody]
  have hbodies : ∀ content ∈ (wrap_body 0 (Base64.encode der)).splitOn '\n', IsBody content := by
    intro content hcontent c hc
    apply @rfc4648.isBase64Char_of_mem_encode der
    rw [← hflatten]
    exact List.mem_flatten_of_mem hcontent hc
  rw [hcontents, symbols_cons, symbols_append, symbols_bodies hbodies, hflatten, symbols_other not_isBody_begin,
    symbols_other not_isBody_end]
  rfl

end Text

section Grammar

variable [Base64] [StandardBase64]

/-- What a reframed text shows. -/
theorem Reframed.nonblank_lines {der : Bytes} {text : Str} (hder : der ≠ []) (h : Reframed der text) :
    ∃ body_lines, nonblank_lines text = BEGIN_CERTIFICATE :: (body_lines ++ [END_CERTIFICATE]) ∧
      body_lines.flatten = rfc4648.encode der := by
  obtain ⟨ls, ls', htext, hplain, hedits, rfl⟩ := h
  have hsymbols := symbols_eq_of_edits hedits
  rw [symbols_of_encode hder htext hplain] at hsymbols
  rw [nonblank_lines_file_text]
  exact nonblank_of_symbols hsymbols

theorem Reframed.decode_eq_ok [RustFmt] [Utf8ErrorText] {der : Bytes} {text : Str} (hder : der ≠ [])
    (h : Reframed der text) (path : Path) : decode_certificate (as_bytes text) path = .ok der := by
  obtain ⟨body_lines, hlines, hbody⟩ := h.nonblank_lines hder
  refine decode_certificate_eq_ok_iff.mpr ⟨text, body_lines, rfl, hlines, ?_, hbody⟩
  rw [hbody]
  exact fun hempty => hder (rfc4648.encode_injective hempty)

/-- PEM framing accepts exactly its grammar: every layout of an encoded certificate, the encoding
itself among them, decodes to it, and what decodes is one block around the canonical base64. -/
theorem decode_certificate_exact [RustFmt] [Utf8ErrorText] (path : Path) :
    (∀ der, der ≠ [] → Reframed der (encode_certificate der) ∧
      decode_certificate (as_bytes (encode_certificate der)) path = .ok der) ∧
    (∀ der text, der ≠ [] → Reframed der text → decode_certificate (as_bytes text) path = .ok der) ∧
    ∀ pem_bytes der, decode_certificate pem_bytes path = .ok der → ∃ text body_lines, pem_bytes = as_bytes text ∧
      nonblank_lines text = BEGIN_CERTIFICATE :: (body_lines ++ [END_CERTIFICATE]) ∧ body_lines ≠ [] ∧
      body_lines.flatten = rfc4648.encode der ∧ ∀ line ∈ body_lines, IsBody line := by
  refine ⟨fun der hder => ⟨reframed_encode_certificate, ?_⟩, fun der text hder h => ?_, fun pem_bytes der h => ?_⟩
  · exact reframed_encode_certificate.decode_eq_ok hder path
  · exact h.decode_eq_ok hder path
  · obtain ⟨text, body_lines, hbytes, hlines, hne, hbody⟩ := decode_certificate_eq_ok_iff.mp h
    refine ⟨text, body_lines, hbytes, hlines, ?_, hbody, ?_⟩
    · rintro rfl
      exact hne rfl
    · intro line hline c hc
      apply @rfc4648.isBase64Char_of_mem_encode der
      rw [← hbody]
      exact List.mem_flatten_of_mem hline hc

end Grammar

section Concrete

open reference

/-- A two-byte file in a layout that no encoder writes. -/
def relaid_lines : List FileLine :=
  [⟨[], [], [' '], false, by decide, by decide⟩, ⟨[], BEGIN_CERTIFICATE, [], true, by decide, by decide⟩,
    ⟨['\t'], "YW".toList, [], false, by decide, by decide⟩, ⟨[], "I=".toList, ['\u00a0'], true, by decide, by decide⟩,
    ⟨[], END_CERTIFICATE, [], false, by decide, by decide⟩]

theorem reframed_relaid : Reframed [0x61, 0x62] (file_text relaid_lines) := by
  let opening : FileLine := ⟨[], BEGIN_CERTIFICATE, [], false, by decide, by decide⟩
  let body : FileLine := ⟨[], "YWI=".toList, [], false, by decide, by decide⟩
  let closing : FileLine := ⟨[], END_CERTIFICATE, [], false, by decide, by decide⟩
  refine ⟨[opening, body, closing], relaid_lines, by decide, by decide, ?_, rfl⟩
  have hdress : Edit [opening, body, closing] [relaid_lines[1], body, closing] :=
    .dress [] [body, closing] opening relaid_lines[1] rfl
  have hwrap : Edit [relaid_lines[1], body, closing] relaid_lines.tail :=
    .wrap [relaid_lines[1]] [body] [relaid_lines[2], relaid_lines[3]] [closing] (by decide) rfl
  have hblank : Edit relaid_lines.tail relaid_lines := .blank [] relaid_lines.tail relaid_lines[0] rfl
  exact .tail (.tail (.single hdress) hwrap) hblank

theorem decode_certificate_exact_relaid :
    @decode_certificate _ ⟨fun _ => "invalid utf-8 sequence of 1 bytes from index 0"⟩ _
      (as_bytes (file_text relaid_lines)) [] = .ok [0x61, 0x62] :=
  (@decode_certificate_exact _ _ _ ⟨fun _ => "invalid utf-8 sequence of 1 bytes from index 0"⟩ []).2.1
    [0x61, 0x62] _ (by decide) reframed_relaid

end Concrete

end lys
