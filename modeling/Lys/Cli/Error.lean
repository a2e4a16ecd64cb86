import Lys.Error
import Lys.Posix.Interface
import Lys.RustStd.Utf8

open rust effect posix

namespace lys

/-- The texts that the standard library gives to paths and strings. -/
class RustFmt where
  /-- `path.display()` -/
  display : Path → String
  /-- `name.to_string_lossy()` -/
  to_string_lossy : Name → Str
  /-- `{text:?}` -/
  debug : Str → String

/-- The text of the `Utf8Error` of bytes that are not UTF-8. -/
class Utf8ErrorText where
  to_string : Bytes → String

/-- Whether the build checks integer overflow. -/
class BuildProfile where
  overflow_checks : Bool

inductive CliError where
  | KeyFileMissing (path : Path)
  | Io (context : String) (source : IoError)
  | Trust (error : TrustError)
  | JsonParse (what : String) (path : Path) (source : String)
  | JsonSerialize (what source : String)
  | InvalidRecipientPublicKey
  | InvalidSenderPublicKey
  | OpenFailed
  | PemParse (path : Path) (reason : String)
  | LogDirMissing (path : Path)
  | LogDirInvalid (path : Path) (reason : String)
deriving DecidableEq

abbrev CliResult := Except CliError

/-- A process of the CLI. -/
abbrev Process (Who Event : Type) := Prog (Calls Who Event) CliError

variable {Who Event : Type}

/-- `a + b` of `u64`s. -/
def add_u64 [BuildProfile] (a b : UInt64) : Process Who Event UInt64 :=
  if a.toNat + b.toNat < 2 ^ 64 then pure (a + b)
  else if BuildProfile.overflow_checks then .panic
  else pure (a + b)

/-- A path component. -/
def component (name : String) : Name := as_bytes name.toList

section Files

variable [RustFmt]

def read_file (path : Path) (what : String) : Process Who Event Bytes :=
  (fs.read path).map_error fun source => .Io s!"failed to read {what} {RustFmt.display path}" source

def write_file (path : Path) (contents : Bytes) (what : String) : Process Who Event Unit :=
  (fs.write path contents).map_error fun source => .Io s!"failed to write {what} {RustFmt.display path}" source

/-- Writes a file that is created for its owner only. -/
def write_file_private (path : Path) (contents : Bytes) (what : String) : Process Who Event Unit := do
  let inode ← Prog.of_except ((← call (.create path)).mapError fun source =>
    CliError.Io s!"failed to create {what} {RustFmt.display path}" source)
  (fs.write_all inode contents.length 0 contents).map_error fun source =>
    .Io s!"failed to write {what} {RustFmt.display path}" source

end Files

/-- A line that a command prints. -/
inductive Console where
  | stdout (line : String)
  | stderr (line : String)
deriving DecidableEq

def println (line : String) : Process Who Console Unit := call (.record (.stdout line))

def eprintln (line : String) : Process Who Console Unit := call (.record (.stderr line))

end lys
