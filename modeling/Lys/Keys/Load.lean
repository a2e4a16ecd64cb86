import Lys.Cli.Error
import Lys.Keys.Identity
import Lys.Posix.Rules

open rust effect posix

namespace lys

/-- The texts that the standard library gives to I/O errors. -/
class IoErrorText where
  to_string : IoError → String

variable {Who Event : Type} [Ed25519Dalek] [IoErrorText]

/-- Loads an identity from an existing key file, the raw seed. -/
def load_existing (path : Path) : Prog (Calls Who Event) TrustError Ed25519Identity := do
  let bytes ← (fs.read path).map_error fun e =>
    .KeyManagement s!"failed to read identity key: {IoErrorText.to_string e}"
  if h : bytes.length = 32 then return .from_seed ⟨bytes, h⟩
  else .fail (.KeyManagement s!"identity key file has invalid length: expected 32 bytes, got {bytes.length}")

def Ed25519Identity.load (path : Path) : Prog (Calls Who Event) TrustError Ed25519Identity := load_existing path

/-- Loads an identity from an existing key file, never generating one. -/
def load_identity (key : Path) : Process Who Event Ed25519Identity := do
  if !(← call (.path_exists key)) then .fail (.KeyFileMissing key)
  (Ed25519Identity.load key).map_error .Trust

end lys
