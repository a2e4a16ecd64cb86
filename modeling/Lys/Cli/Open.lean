import Lys.Cli.Outputs
import Lys.Seal.Binding

open rust effect posix

namespace lys

section Load

variable [Ed25519Dalek] [IoErrorText] {Who Event α : Type} {who : Who} {w : World Who Event} {key : Path}
  {post : Outcome CliError α → World Who Event → Prop}

omit [IoErrorText] in
/-- An identity is its signing key. -/
theorem from_seed_signing_key (identity : Ed25519Identity) : Ed25519Identity.from_seed identity.signing_key = identity := by
  obtain ⟨signing_key, verifying_key, rfl⟩ := identity
  rfl

/-- The identity of a key file is loaded. -/
theorem load_identity_completes {identity : Ed25519Identity} {next : Ed25519Identity → Process Who Event α}
    (hkey : w.fs.file key = some identity.signing_key.as_slice) (h : Completes who post (next identity) w) :
    Completes who post (load_identity key >>= next) w := by
  obtain ⟨started, opened, hstarted, hfound, hread⟩ :
      ∃ (started : Bool → Process Who Event α) (opened : Except IoError Bytes → Process Who Event α),
        (load_identity key >>= next) = .op (.path_exists key) started ∧ started true = .op (.read key) opened ∧
        ∀ bytes, opened (.ok bytes) = (if h : bytes.length = 32 then pure (Ed25519Identity.from_seed ⟨bytes, h⟩)
          else .fail (.KeyManagement s!"identity key file has invalid length: expected 32 bytes, got {bytes.length}") :
            Prog (Calls Who Event) TrustError Ed25519Identity).map_error CliError.Trust >>= next :=
    ⟨_, _, rfl, rfl, fun _ => rfl⟩
  refine Completes.look hstarted rfl fun choice r hchoice happly => ?_
  obtain ⟨inode, hfind, _⟩ := Fs.file_eq_some_iff.mp hkey
  obtain rfl : r = true := by
    rw [(World.ask_eq_some happly).2.2 (by rintro rfl; cases hchoice), hfind]
    rfl
  refine Completes.read hfound hkey ?_
  rw [hread, dif_pos identity.signing_key.length_eq]
  change Completes who post (next (Ed25519Identity.from_seed identity.signing_key)) w
  rw [from_seed_signing_key]
  exact h

end Load

section Private

variable [RustFmt] {Who Event α : Type} {who : Who} {w : World Who Event} {path : Path} {contents : Bytes} {what : String}
  {post : Outcome CliError α → World Who Event → Prop}

/-- A private file is written where nothing obstructs it. -/
theorem write_file_private_completes {next : Process Who Event α} (hclear : ¬ Obstructed w.fs.view path)
    (h : ∀ inode w', Overwritten who path w inode contents w' → Completes who post next w') :
    Completes who post (write_file_private path contents what >>= fun _ => next) w := by
  suffices hwritten : Keeps who (solo (fun _ => True) true) (fun out w' => out = .done () ∧
      ∃ inode, Overwritten who path w inode contents w') (write_file_private path contents what) w by
    refine (hwritten.mono ?_).bind
    rintro _ w' ⟨rfl, inode, hw'⟩
    exact h inode w' hw'
  refine Keeps.op (step_overwrite hclear) rfl fun r w' hw' _ => ?_
  cases r with
  | error e => exact hw'.elim
  | ok inode =>
    refine Keeps.map_error (Keeps.mono (Overwritten.fill hw') ?_)
    rintro _ w'' ⟨rfl, hfull⟩
    exact ⟨rfl, inode, hfull⟩

end Private

section Open

variable [RustFmt] [IoErrorText] [Sha2] [Ed25519Dalek] [Ed25519Scalar] [X25519Dalek] [HkdfSha256] [Aes256Gcm]
  [SerdeJson SealedEnvelope] [Ciborium] {Who : Type} {who : Who} {w : World Who Console}
  {key envelope attestation out : Path} {envelope_bytes attestation_bytes payload : Bytes}
  {sealed : SealedEnvelope} {seal_attestation : Attestation} {sender : U8Array 32}

/-- `lys open` writes what `open_and_verify` returns. -/
theorem open_command_completes {recipient : Ed25519Identity}
    (hkey : w.fs.file key = some recipient.signing_key.as_slice) (henvelope : w.fs.file envelope = some envelope_bytes)
    (hattestation : w.fs.file attestation = some attestation_bytes) (hclear : ¬ Obstructed w.fs.view out)
    (hsealed : SerdeJson.from_slice envelope_bytes = .ok sealed)
    (hseal : Attestation.from_cose_bytes attestation_bytes = .ok seal_attestation)
    (hopen : open_and_verify sealed seal_attestation sender recipient.x25519_static_secret = .ok payload) :
    Completes who (fun ended w' => ended = .done () ∧ w'.fs.file out = some payload)
      (open_command key (hex_lower sender.as_slice) envelope attestation out) w := by
  refine load_identity_completes hkey ?_
  rw [parse_hex_32_hex_lower]
  refine Completes.read rfl henvelope ?_
  change Completes who _ (Prog.of_except ((SerdeJson.from_slice envelope_bytes).mapError
    (CliError.JsonParse "sealed envelope" envelope)) >>= _) w
  rw [hsealed]
  refine Completes.read rfl hattestation ?_
  change Completes who _ (Prog.of_except ((Attestation.from_cose_bytes attestation_bytes).mapError
    fun _ => CliError.OpenFailed) >>= _) w
  rw [hseal]
  change Completes who _ (Prog.of_except ((open_and_verify sealed seal_attestation sender
    recipient.x25519_static_secret).mapError fun _ => CliError.OpenFailed) >>= _) w
  rw [hopen]
  refine write_file_private_completes hclear fun inode w' hw' => ?_
  refine println_keeps fun w₁ h₁ => println_keeps fun w₂ h₂ => println_keeps fun w₃ h₃ =>
    println_ends fun w₄ h₄ => ⟨rfl, ?_⟩
  rw [h₄, h₃, h₂, h₁]
  exact Fs.file_eq_some_iff.mpr ⟨inode, hw'.find, hw'.content⟩

end Open

end lys
