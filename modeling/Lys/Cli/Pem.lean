import Lys.Cli.Error
import Lys.Crates
import Lys.RustStd.Lines

open rust posix

namespace lys

/-- Opening boundary line of a PEM certificate. -/
def BEGIN_CERTIFICATE : Str := "-----BEGIN CERTIFICATE-----".toList

/-- Closing boundary line of a PEM certificate. -/
def END_CERTIFICATE : Str := "-----END CERTIFICATE-----".toList

def LINE_WIDTH : Nat := 64

/-- The loop over the characters of the body from `index` on. -/
def wrap_body (index : Nat) : Str → Str
  | [] => []
  | character :: rest =>
    if index > 0 ∧ index % LINE_WIDTH = 0 then '\n' :: character :: wrap_body (index + 1) rest
    else character :: wrap_body (index + 1) rest

/-- The PEM `CERTIFICATE` block of a certificate. -/
def encode_certificate [Base64] (der : Bytes) : Str :=
  let body := Base64.encode der
  BEGIN_CERTIFICATE ++ ['\n'] ++ wrap_body 0 body ++ (if body.isEmpty then [] else ['\n']) ++
    END_CERTIFICATE ++ ['\n']

/-- The trimmed lines of a text that are not empty. -/
def nonblank_lines (text : Str) : List Str := ((lines text).map trim).filter fun line => !line.isEmpty

/-- Decodes the one `CERTIFICATE` block of the file at `path`. -/
def decode_certificate [RustFmt] [Utf8ErrorText] [Base64] (pem_bytes : Bytes) (path : Path) : CliResult Bytes := do
  let text ← ok_or (from_utf8 pem_bytes)
    (.PemParse path s!"file is not UTF-8 text: {Utf8ErrorText.to_string pem_bytes}")
  let lines := nonblank_lines text
  let (some first, some last) := (lines.head?, lines.getLast?) | .error (.PemParse path "file is empty")
  reject_if (first ≠ BEGIN_CERTIFICATE)
    (.PemParse path s!"first line must be {RustFmt.debug BEGIN_CERTIFICATE}")
  reject_if (lines.length < 2 ∨ last ≠ END_CERTIFICATE)
    (.PemParse path s!"last line must be {RustFmt.debug END_CERTIFICATE}")
  -- `lines[1..lines.len() - 1].concat()`
  let body := ((lines.take (lines.length - 1)).drop 1).flatten
  reject_if (body = []) (.PemParse path "certificate body is empty")
  (Base64.decode body).mapError fun source => .PemParse path s!"certificate body is not valid base64: {source}"

/-- A list of two lines or more by its first line, its last line and those between. -/
theorem eq_cons_append_iff {α : Type} {ls middle : List α} {first last : α} :
    ls = first :: (middle ++ [last]) ↔
      ls.head? = some first ∧ ls.getLast? = some last ∧ 2 ≤ ls.length ∧
        (ls.take (ls.length - 1)).drop 1 = middle := by
  constructor
  · rintro rfl
    rw [← List.cons_append, List.getLast?_concat]
    simp
  · rintro ⟨hfirst, hlast, hlength, rfl⟩
    obtain ⟨tail, rfl⟩ := List.head?_eq_some_iff.mp hfirst
    obtain rfl | ⟨front, c, rfl⟩ := List.eq_nil_or_concat' tail
    · simp at hlength
    · rw [← List.cons_append, List.getLast?_concat, Option.some.injEq] at hlast
      simp [hlast]

section Decode

variable [RustFmt] [Utf8ErrorText] [Base64] {pem_bytes der : Bytes} {path : Path}

/-- What is accepted: UTF-8 text of which the lines that are not blank are the two boundaries
and between them the encoding. -/
theorem decode_certificate_eq_ok_iff [StandardBase64] :
    decode_certificate pem_bytes path = .ok der ↔
      ∃ text body_lines, pem_bytes = as_bytes text ∧
        nonblank_lines text = BEGIN_CERTIFICATE :: (body_lines ++ [END_CERTIFICATE]) ∧
        body_lines.flatten ≠ [] ∧ body_lines.flatten = rfc4648.encode der := by
  simp only [decode_certificate, bind_eq_ok_iff, ok_or_eq_ok_iff, from_utf8_eq_some_iff]
  constructor
  · rintro ⟨text, rfl, h⟩
    cases hfirst : (nonblank_lines text).head? with
    | none =>
      rw [hfirst] at h
      cases h
    | some first =>
      cases hlast : (nonblank_lines text).getLast? with
      | none =>
        rw [hfirst, hlast] at h
        cases h
      | some last =>
        simp only [hfirst, hlast, bind_eq_ok_iff, reject_if_eq_ok_iff, mapError_eq_ok_iff, not_not, not_or,
          exists_const, StandardBase64.decode_eq_ok_iff] at h
        obtain ⟨hbegin, ⟨hlength, hend⟩, hbody, hdecode⟩ := h
        refine ⟨text, _, rfl, eq_cons_append_iff.mpr ⟨?_, ?_, not_lt.mp hlength, rfl⟩, hbody, hdecode⟩
        · rw [hfirst, hbegin]
        · rw [hlast, hend]
  · rintro ⟨text, body_lines, rfl, hlines, hne, hbody⟩
    obtain ⟨hfirst, hlast, hlength, hmiddle⟩ := eq_cons_append_iff.mp hlines
    refine ⟨text, rfl, ?_⟩
    simp only [hfirst, hlast, bind_eq_ok_iff, reject_if_eq_ok_iff, mapError_eq_ok_iff, not_not, not_or,
      exists_const, StandardBase64.decode_eq_ok_iff, hmiddle]
    exact ⟨trivial, ⟨not_lt.mpr hlength, trivial⟩, hne, hbody⟩

end Decode

end lys
