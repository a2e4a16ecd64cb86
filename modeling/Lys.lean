import Lys.Keys.SigningContexts
import Lys.Merkle.Tree
import Lys.Checkpoint.Note
import Lys.GoNote.Agreement
import Lys.Tlog.Binding
import Lys.Rfc8949.Value
import Lys.Attestation.Sign
import Lys.Seal.Authenticated
import Lys.Seal.Recipient
import Lys.Merkle.External
import Lys.Log.Tamper
import Lys.Log.Refinement
import Lys.Checkpoint.Canonical
import Lys.Checkpoint.Spec
import Lys.GoNote.Verifier
import Lys.Checkpoint.Cosignature
import Lys.Keys.KeyAgreement
import Lys.Seal.Binding
import Lys.Ca.Authority
import Lys.Ca.Lifetime
import Lys.Ca.Reference
import Lys.Ca.Encoding
import Lys.Log.Decision
import Lys.Log.Failure
import Lys.Effect.Run
import Lys.Cli.Seal
import Lys.Posix.Runs
import Lys.Cli.AllOrNothing
import Lys.Cli.Open
import Lys.Cli.Reference
import Lys.RustStd.Lines
import Lys.Cli.Pem
import Lys.Cli.Reframe
import Lys.Log.Overflow
import Lys.Log.Crash
import Lys.Log.Origin
import Lys.Rfc6962.Extends
import Lys.Tlog.Chain
import Lys.Posix.Owned
import Lys.Posix.Sharing
import Lys.Cli.Log
import Lys.Log.Sparing
import Lys.Log.History
import Lys.Log.Equivocation
import Lys.Posix.Serial
import Lys.Tlog.Reference
import Lys.Posix.Publish
import Lys.Keys.Generate
import Lys.Keys.Convergence
