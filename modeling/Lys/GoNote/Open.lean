import Lys.GoNote.Std
import Lys.RustStd.Result

open rust

namespace go.note

structure Verifier where
  Name : Bytes
  KeyHash : UInt32
  Verify : Bytes → Bytes → Bool

structure Signature where
  Name : Bytes
  Hash : UInt32
  Base64 : Bytes
deriving DecidableEq

structure Note where
  Text : Bytes
  Sigs : List Signature
  UnverifiedSigs : List Signature
deriving DecidableEq

inductive Error where
  | malformedNote
  | UnknownVerifier (Name : Bytes) (KeyHash : UInt32)
  | ambiguousVerifier (name : Bytes) (hash : UInt32)
  | mismatchedVerifier
  | InvalidSignature (Name : Bytes) (Hash : UInt32)
  | UnverifiedNote (Note : Note)
deriving DecidableEq

/-- A `Verifiers`: its lookup method. -/
abbrev Verifiers := Bytes → UInt32 → Except Error Verifier

def VerifierList (list : List Verifier) : Verifiers := fun name hash =>
  match list.filter fun v => v.Name = name ∧ v.KeyHash = hash with
  | [] => .error (.UnknownVerifier name hash)
  | [v] => .ok v
  | _ => .error (.ambiguousVerifier name hash)

/-- Non-empty, valid UTF-8, no Unicode spaces and no pluses. -/
def isValidName (name : Bytes) : Bool :=
  name ≠ [] && ValidString name && !(runes name).any IsSpace && !name.contains 0x2b

/-- Cuts `s` at the first `sep`; without one, `after` is empty. -/
def chop (s : Bytes) (sep : UInt8) : Bytes × Bytes := (split_once sep s).getD (s, [])

/-- `"— "` -/
def sigPrefix : Bytes := [0xe2, 0x80, 0x94, 0x20]

/-- An invalid byte or an ASCII control character other than the newline. -/
def isMalformedRune : Option Char → Bool
  | some r => r < ' ' && r ≠ '\n'
  | none => true

/-- What the loop of `Open` carries from line to line. -/
structure OpenState where
  n : Note
  seen : List (Bytes × UInt32)
  seenUnverified : List Bytes
  numSig : Nat

/-- The text, the name, the key hash, the signature and the base64 of a signature line. -/
def parseLine (line : Bytes) : Except Error (Bytes × Bytes × UInt32 × Bytes × Bytes) := do
  let line ← ok_or ( strip_prefix sigPrefix line) .malformedNote
  let (name, b64) := chop line 0x20
  let sig ← ok_or (DecodeString b64) .malformedNote
  reject_if (isValidName name = false ∨ b64 = [] ∨ sig.length < 5) .malformedNote
  return (line, name, BigEndianUint32 sig, sig.drop 4, b64)

/-- One iteration of the loop of `Open`. -/
def openLine (known : Verifiers) (text : Bytes) (st : OpenState) (line : Bytes) : Except Error OpenState := do
  let (line, name, hash, sig, b64) ← parseLine line
  let st := { st with numSig := st.numSig + 1 }
  reject_if (st.numSig > 100) .malformedNote
  match known name hash with
  | .error (.UnknownVerifier _ _) =>
    if line ∈ st.seenUnverified then return st
    else return { st with
      seenUnverified := line :: st.seenUnverified
      n := { st.n with UnverifiedSigs := st.n.UnverifiedSigs ++ [⟨name, hash, b64⟩] } }
  | .error err => .error err
  | .ok v =>
    reject_if (v.Name ≠ name ∨ v.KeyHash ≠ hash) .mismatchedVerifier
    if (name, hash) ∈ st.seen then return st
    else
      reject_if (v.Verify text sig = false) (.InvalidSignature name hash)
      return { st with
        seen := (name, hash) :: st.seen
        n := { st.n with Sigs := st.n.Sigs ++ [⟨name, hash, b64⟩] } }

/-- The loop of `Open`: the block ends with a newline, so that every line has one. -/
def openLines (known : Verifiers) (text sigs : Bytes) (st : OpenState) : Except Error OpenState :=
  match _h : split_once 0x0a sigs with
  | none => .ok st
  | some (line, sigs) => do
    let st ← openLine known text st line
    openLines known text sigs st
termination_by sigs.length
decreasing_by
  obtain ⟨rfl, _⟩ := split_once_eq_some_iff.mp _h
  simp only [List.length_append, List.length_cons]
  omega

/-- Parses a message and checks the signatures of the known verifiers. -/
def Open (msg : Bytes) (known : Verifiers) : Except Error Note := do
  reject_if ((runes msg).any isMalformedRune) .malformedNote
  let split ← ok_or (rfind [0x0a, 0x0a] msg) .malformedNote
  let text := msg.take (split + 1)
  let sigs := msg.drop (split + 2)
  reject_if (sigs = [] ∨ sigs.getLast? ≠ some 0x0a) .malformedNote
  let st ← openLines known text sigs ⟨⟨text, [], []⟩, [], [], 0⟩
  reject_if (st.n.Sigs = []) (.UnverifiedNote st.n)
  return st.n

/-- The loop over closed lines folds `openLine` over them. -/
theorem openLines_join_lines {known : Verifiers} {text : Bytes} {lines : List Bytes}
    (hlines : ∀ line ∈ lines, 0x0a ∉ line) (st : OpenState) :
    openLines known text (join_lines 0x0a lines) st = lines.foldlM (openLine known text) st := by
  induction lines generalizing st with
  | nil =>
    rw [openLines, join_lines_nil]
    rfl
  | cons line lines ih =>
    have hcut : split_once 0x0a (join_lines 0x0a (line :: lines)) = some (line, join_lines 0x0a lines) := by
      rw [split_once_eq_some_iff, join_lines_cons]
      exact ⟨rfl, hlines line (by simp)⟩
    rw [openLines, List.foldlM_cons]
    split
    next h =>
      rw [hcut] at h
      cases h
    next h =>
      rw [hcut] at h
      obtain ⟨rfl, rfl⟩ := Prod.mk.inj (Option.some.inj h)
      exact bind_congr fun st => ih (fun line hline => hlines line (by simp [hline])) st

end go.note
