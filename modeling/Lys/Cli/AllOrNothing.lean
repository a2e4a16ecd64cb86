import Lys.Cli.Open
import Lys.Cli.Reference

open rust effect posix

namespace lys

section Load

variable [Ed25519Dalek] [IoErrorText] {Who Event α : Type} {who : Who} {w : World Who Event} {choices : List Choice}
  {key : Path} {ended : Outcome CliError α}

/-- An identity that was loaded, or not. -/
theorem looked_load_identity {next : Ed25519Identity → Process Who Event α}
    (hout : (run who (load_identity key >>= next) choices w).outcome = some ended) :
    (∃ e rest, Looked who w (load_identity key >>= next) choices (.fail e) rest) ∨
      ∃ identity rest, w.fs.file key = some identity.signing_key.as_slice ∧
        Looked who w (load_identity key >>= next) choices (next identity) rest := by
  obtain ⟨started, opened, hstarted, hmissing, hfound, hunread, hread⟩ :
      ∃ (started : Bool → Process Who Event α) (opened : Except IoError Bytes → Process Who Event α),
        (load_identity key >>= next) = .op (.path_exists key) started ∧
        started false = .fail (.KeyFileMissing key) ∧ started true = .op (.read key) opened ∧
        (∀ e, opened (.error e) = .fail (.Trust (.KeyManagement
          s!"failed to read identity key: {IoErrorText.to_string e}"))) ∧
        ∀ bytes, opened (.ok bytes) = (if h : bytes.length = 32 then pure (Ed25519Identity.from_seed ⟨bytes, h⟩)
          else .fail (.KeyManagement s!"identity key file has invalid length: expected 32 bytes, got {bytes.length}") :
            Prog (Calls Who Event) TrustError Ed25519Identity).map_error CliError.Trust >>= next :=
    ⟨_, _, rfl, rfl, rfl, fun _ => rfl, fun _ => rfl⟩
  obtain ⟨_, found, rest, _, hlooked⟩ := Looked.op hstarted rfl hout
  cases found with
  | false => exact .inl ⟨_, rest, hmissing ▸ hlooked⟩
  | true =>
    rw [hlooked.run_eq] at hout
    obtain ⟨e, rest', hfailed⟩ | ⟨bytes, rest', hfile, hbytes⟩ := Looked.read hfound hout
    · rw [hunread] at hfailed
      exact .inl ⟨_, rest', hlooked.trans hfailed⟩
    · rw [hread] at hbytes
      split at hbytes
      next hlength => exact .inr ⟨Ed25519Identity.from_seed ⟨bytes, hlength⟩, rest', hfile, hlooked.trans hbytes⟩
      next => exact .inl ⟨_, rest', hlooked.trans hbytes⟩

end Load

section Seal

variable [RustFmt] [IoErrorText] [Sha2] [Ed25519Dalek] [X25519Dalek] [HkdfSha256] [Aes256Gcm]
  [SerdeJson SealedEnvelope] {Who : Type} {who : Who} {w w' : World Who Console} {choices : List Choice}
  {key payload out attestation_out : Path} {recipient_public_key : Str} {ephemeral_seed : U8Array 32} {now : Int64}
  {ended : Outcome CliError Unit}

/-- What `lys seal` writes: the sender and the payload were read, and sealed. -/
structure Sealed (w : World Who Console) (key payload : Path) (recipient_public_key : Str) (ephemeral_seed : U8Array 32)
    (now : Int64) (recipient : U8Array 32) (envelope : SealedEnvelope) (attestation : Attestation) (envelope_json : Bytes) : Prop where
  recipient_eq : parse_hex_32 recipient_public_key = some recipient
  sealed_eq : ∃ sender payload_bytes, w.fs.file key = some sender.signing_key.as_slice ∧
    w.fs.file payload = some payload_bytes ∧
    sign_and_seal payload_bytes sender recipient ephemeral_seed now = .ok (envelope, attestation)
  json_eq : ∃ text, SerdeJson.to_string_pretty envelope = .ok text ∧ envelope_json = as_bytes (text ++ ['\n'])

/-- Before it writes, `lys seal` only looks: it fails or goes on to its outputs. -/
theorem looked_seal_command (hout : (run who (seal_command key recipient_public_key payload out attestation_out
      ephemeral_seed now) choices w).outcome = some ended) :
    (∃ e rest, Looked who w (seal_command key recipient_public_key payload out attestation_out ephemeral_seed now)
        choices (.fail e) rest) ∨
      ∃ recipient envelope attestation envelope_json rest,
        Sealed w key payload recipient_public_key ephemeral_seed now recipient envelope attestation envelope_json ∧
        Looked who w (seal_command key recipient_public_key payload out attestation_out ephemeral_seed now) choices
          (seal_outputs payload out attestation_out recipient attestation envelope_json) rest := by
  rw [seal_command] at hout ⊢
  obtain hfailed | ⟨sender, rest, hkey, hlooked⟩ := looked_load_identity hout
  · exact .inl hfailed
  rw [hlooked.run_eq] at hout
  cases hrecipient : parse_hex_32 recipient_public_key with
  | none =>
    rw [hrecipient] at hlooked
    exact .inl ⟨_, rest, hlooked⟩
  | some recipient =>
    rw [hrecipient] at hlooked hout
    obtain ⟨e, rest', hfailed⟩ | ⟨payload_bytes, rest', hpayload, hread⟩ := @Looked.read _ _ _ _ who payload _ _ _ _ _ rfl hout
    · exact .inl ⟨_, rest', hlooked.trans hfailed⟩
    have hboth := hlooked.trans hread
    change Looked who w _ choices (Prog.of_except
      ((sign_and_seal payload_bytes sender recipient ephemeral_seed now).mapError CliError.Trust) >>= _) _ at hboth
    cases hseal : sign_and_seal payload_bytes sender recipient ephemeral_seed now with
    | error e =>
      rw [hseal] at hboth
      exact .inl ⟨_, rest', hboth⟩
    | ok made =>
      obtain ⟨envelope, attestation⟩ := made
      rw [hseal] at hboth
      change Looked who w _ choices (Prog.of_except
        ((SerdeJson.to_string_pretty envelope).mapError (CliError.JsonSerialize "sealed envelope")) >>= _) _ at hboth
      cases hjson : SerdeJson.to_string_pretty envelope with
      | error e =>
        rw [hjson] at hboth
        exact .inl ⟨_, rest', hboth⟩
      | ok text =>
        rw [hjson] at hboth
        exact .inr ⟨recipient, envelope, attestation, as_bytes (text ++ ['\n']), rest',
          ⟨hrecipient, ⟨sender, payload_bytes, hkey, hpayload, hseal⟩, text, hjson, rfl⟩, hboth⟩

end Seal

section Pair

variable [RustFmt] [IoErrorText] [Sha2] [Ed25519Dalek] [Ed25519Scalar] [X25519Dalek] [HkdfSha256] [Aes256Gcm]
  [SerdeJson SealedEnvelope] [Ciborium] {Who : Type} {who : Who} {w w' : World Who Console}
  {key payload out attestation_out path : Path} {recipient_public_key : Str} {calls : List (Who × Op Console)}

/-- A file that the calls opened for writing or wrote to stands at a path. -/
def HoldsOutput (calls : List (Who × Op Console)) (fs : Fs) (path : Path) : Prop :=
  ∃ inode, fs.find path = some (.file inode) ∧ ∃ entry ∈ calls, WritesTo path inode entry.2

/-- A sealed envelope and the attestation with which `lys open` recovers a payload from it:
with the key of the recipient whose printed public key was used, and the sender's public key. -/
structure IsPair (Who : Type) (sender : Ed25519Identity) (recipient_public_key : Str)
    (payload envelope_bytes attestation_bytes : Bytes) : Prop where
  passes : ∃ envelope attestation, SerdeJson.from_slice envelope_bytes = .ok envelope ∧
    Attestation.from_cose_bytes attestation_bytes = .ok attestation ∧
    PassesGate envelope attestation sender.public_key_bytes
  opens : ∀ recipient : Ed25519Identity, recipient_public_key = hex_lower recipient.x25519_public_key.as_slice →
    ∀ (reader : Who) (w : World Who Console) (key envelope attestation out : Path),
      w.fs.file key = some recipient.signing_key.as_slice → w.fs.file envelope = some envelope_bytes →
      w.fs.file attestation = some attestation_bytes → ¬ Obstructed w.fs.view out →
        Completes reader (fun ended w' => ended = .done () ∧ w'.fs.file out = some payload)
          (open_command key (hex_lower sender.public_key_bytes.as_slice) envelope attestation out) w

/-- After `lys seal` succeeded the outputs are a pair that opens to the payload; after it
failed neither path holds an output of it. -/
structure AllOrNothing (w : World Who Console) (key payload out attestation_out : Path) (recipient_public_key : Str)
    (ended : Outcome CliError Unit) (w' : World Who Console) : Prop where
  sealed : ended = .done () → ∃ sender payload_bytes envelope_bytes attestation_bytes,
    w.fs.file key = some sender.signing_key.as_slice ∧ w.fs.file payload = some payload_bytes ∧
    w'.fs.file out = some envelope_bytes ∧ w'.fs.file attestation_out = some attestation_bytes ∧
    IsPair Who sender recipient_public_key payload_bytes envelope_bytes attestation_bytes
  failed : ended ≠ .done () → ∃ calls, w'.trace = calls ++ w.trace ∧
    ¬ HoldsOutput calls w'.fs out ∧ ¬ HoldsOutput calls w'.fs attestation_out

theorem allOrNothing_failed_iff {e : CliError} (calls : List (Who × Op Console)) (htrace : w'.trace = calls ++ w.trace) :
    AllOrNothing w key payload out attestation_out recipient_public_key (.failed e) w' ↔
      ¬ HoldsOutput calls w'.fs out ∧ ¬ HoldsOutput calls w'.fs attestation_out := by
  constructor
  · rintro ⟨_, hfailed⟩
    obtain ⟨calls', htrace', hnone⟩ := hfailed nofun
    obtain rfl := List.append_cancel_right (htrace.symm.trans htrace')
    exact hnone
  · exact fun h => ⟨nofun, fun _ => ⟨calls, htrace, h⟩⟩

omit [RustFmt] [IoErrorText] [Sha2] [Ed25519Dalek] [Ed25519Scalar] [X25519Dalek] [HkdfSha256] [Aes256Gcm]
  [SerdeJson SealedEnvelope] [Ciborium] in
theorem not_holdsOutput_of_absent {fs : Fs} (h : fs.find path = none) : ¬ HoldsOutput calls fs path := by
  rintro ⟨inode, hfind, _⟩
  rw [h] at hfind
  cases hfind

/-- The bytes of an envelope and of its attestation are a pair. -/
theorem Sealed.isPair (Reader : Type) [GenuineEd25519] [Rfc7748X25519] [GenuineAes256Gcm]
    [LawfulSerdeJson SealedEnvelope] [Rfc8949Ciborium] {ephemeral_seed : U8Array 32} {now : Int64} {recipient : U8Array 32} {envelope : SealedEnvelope}
    {attestation : Attestation} {envelope_json : Bytes}
    (h : Sealed w key payload recipient_public_key ephemeral_seed now recipient envelope attestation envelope_json) :
    ∃ sender payload_bytes, w.fs.file key = some sender.signing_key.as_slice ∧ w.fs.file payload = some payload_bytes ∧
      IsPair Reader sender recipient_public_key payload_bytes envelope_json attestation.to_cose_bytes := by
  obtain ⟨hrecipient, ⟨sender, payload_bytes, hkey, hpayload, hseal⟩, text, htext, rfl⟩ := h
  obtain ⟨text', htext', hslice⟩ := LawfulSerdeJson.from_slice_pretty envelope
  obtain rfl := Except.ok.inj (htext.symm.trans htext')
  have hcose := Attestation.from_cose_bytes_eq_ok_iff.mpr (Eq.refl attestation.to_cose_bytes)
  refine ⟨sender, payload_bytes, hkey, hpayload, ⟨envelope, attestation, hslice, hcose, ?_⟩, ?_⟩
  · obtain ⟨_, rfl⟩ := sign_and_seal_eq_ok hseal
    exact passesGate_iff.mpr ⟨rfl, verify_attestation_sign_attestation _ _ _⟩
  · rintro identity rfl reader w' key' envelope' attestation' out' hkey' henvelope hattestation hclear
    rw [parse_hex_32_hex_lower] at hrecipient
    obtain rfl := Option.some.inj hrecipient
    exact open_command_completes hkey' henvelope hattestation hclear hslice hcose (open_and_verify_of_sign_and_seal hseal)

/-- An artifact is no JSON text. -/
theorem not_isPair_of_attestation [AsciiSerdeJson SealedEnvelope] {sender : Ed25519Identity} {payload_bytes : Bytes}
    {attestation : Attestation} {bytes : Bytes} :
    ¬ IsPair Who sender recipient_public_key payload_bytes attestation.to_cose_bytes bytes := by
  rintro ⟨⟨envelope, _, hslice, _⟩, _⟩
  have hhead : ∃ rest, attestation.to_cose_bytes = 0xd2 :: rest := ⟨_, rfl⟩
  obtain ⟨rest, hrest⟩ := hhead
  obtain ⟨e, herror⟩ := AsciiSerdeJson.exists_from_slice_eq_error (T := SealedEnvelope) 0xd2 rest (by decide)
  rw [hrest, herror] at hslice
  cases hslice

end Pair

section Ends

variable [RustFmt] [IoErrorText] [Sha2] [Ed25519Dalek] [Ed25519Scalar] [X25519Dalek] [HkdfSha256] [Aes256Gcm]
  [SerdeJson SealedEnvelope] [Ciborium] {Who : Type} {who : Who} {w w₁ w' : World Who Console}
  {key payload out attestation_out path : Path} {recipient_public_key : Str} {ephemeral_seed : U8Array 32} {now : Int64}
  {recipient : U8Array 32} {envelope : SealedEnvelope} {attestation : Attestation} {envelope_json : Bytes}
  {ended : Outcome CliError Unit} {intact : Prop}

omit [RustFmt] [IoErrorText] [Sha2] [Ed25519Dalek] [Ed25519Scalar] [X25519Dalek] [HkdfSha256] [Aes256Gcm]
  [SerdeJson SealedEnvelope] [Ciborium] in
/-- A file that was written stands at its path. -/
theorem holdsOutput_of_overwritten {inode : Nat} {bytes : Bytes} {calls : List (Who × Op Console)} {fs : Fs}
    (h : Overwritten who path w inode bytes w') (hcalls : ∃ before, w'.trace = before ++ w.trace ∧ before ⊆ calls)
    (hfind : fs.find path = w'.fs.find path) : HoldsOutput calls fs path := by
  obtain ⟨before, htrace, hsubset⟩ := hcalls
  obtain ⟨made, htrace', hcreate, _⟩ := h.trace
  obtain rfl := List.append_cancel_right (htrace.symm.trans htrace')
  exact ⟨inode, hfind.trans h.find, _, hsubset hcreate, .inl rfl⟩

omit [RustFmt] [IoErrorText] [Sha2] [Ed25519Dalek] [Ed25519Scalar] [X25519Dalek] [HkdfSha256] [Aes256Gcm]
  [SerdeJson SealedEnvelope] [Ciborium] in
/-- A file that was deleted again is left where it has another name. -/
theorem holdsOutput_other_name_iff {inode : Nat} {bytes : Bytes} {calls : List (Who × Op Console)} {fs : Fs}
    (h : Overwritten who out w inode bytes w₁) (hbytes : bytes ≠ []) (htrace : w₁.trace = calls ++ w.trace)
    (hremoved : w₁.fs.remove_file out = .ok fs) (hne : path ≠ out) :
    HoldsOutput ((who, .remove_file out) :: calls) fs path ↔ w₁.fs.find path = w₁.fs.find out := by
  obtain ⟨made, htrace', _, hstored, hwrites⟩ := h.trace
  obtain rfl := List.append_cancel_right (htrace.symm.trans htrace')
  rw [h.find, HoldsOutput, (Fs.remove_file_eq_ok hremoved).2, if_neg hne]
  constructor
  · rintro ⟨inode', hfind, entry, hentry, hopened⟩
    suffices hsame : inode' = inode by rw [hfind, hsame]
    obtain _ | ⟨_, hentry⟩ := hentry
    · obtain hcreate | ⟨_, _, hwrite⟩ := hopened
      · cases hcreate
      · cases hwrite
    · obtain hcreate | ⟨_, _, hwrite⟩ := hopened <;> obtain hcreate' | ⟨_, _, hwrite'⟩ := hwrites entry hentry
      · exact absurd (Op.create.inj (hcreate.symm.trans hcreate')) hne
      · cases hcreate.symm.trans hwrite'
      · cases hwrite.symm.trans hcreate'
      · exact (Op.write.inj (hwrite.symm.trans hwrite')).1
  · intro hfind
    obtain ⟨offset, stored, hmem⟩ := hstored hbytes
    exact ⟨inode, hfind, _, List.mem_cons_of_mem _ hmem, .inr ⟨offset, stored, rfl⟩⟩

omit [RustFmt] [IoErrorText] [Sha2] [Ed25519Dalek] [Ed25519Scalar] [X25519Dalek] [HkdfSha256] [Aes256Gcm]
  [SerdeJson SealedEnvelope] [Ciborium] in
/-- What the outputs hold in the end: the envelope stays where the attestation went to another file. -/
theorem file_of_overwritten_twice {inode inode' : Nat} {bytes bytes' : Bytes} (h : Overwritten who out w inode bytes w₁)
    (h' : Overwritten who attestation_out w₁ inode' bytes' w') : w'.fs.file attestation_out = some bytes' ∧
      w'.fs.file out = some (if out ≠ attestation_out ∧ w₁.fs.find attestation_out ≠ w₁.fs.find out then bytes else bytes') := by
  have hattestation : w'.fs.file attestation_out = some bytes' := Fs.file_eq_some_iff.mpr ⟨inode', h'.find, h'.content⟩
  refine ⟨hattestation, ?_⟩
  by_cases hpaths : out = attestation_out
  · rw [if_neg fun h => h.1 hpaths, hpaths, hattestation]
  · have hfind : w'.fs.find out = some (.file inode) := (h'.find_eq out hpaths).trans h.find
    have hinode : inode' = inode ↔ w₁.fs.find attestation_out = w₁.fs.find out := by
      rw [h.find]
      obtain hnamed | ⟨habsent, hfresh⟩ := h'.named
      · rw [hnamed]
        simp
      · have hlt := Fs.lt_of_find_eq_file h.find
        refine iff_of_false (by omega) ?_
        rw [habsent]
        nofun
    by_cases hsame : inode' = inode
    · rw [if_neg fun h => h.2 (hinode.mp hsame)]
      exact Fs.file_eq_some_iff.mpr ⟨inode, hfind, hsame ▸ h'.content⟩
    · rw [if_pos ⟨hpaths, fun h => hsame (hinode.mpr h)⟩]
      exact Fs.file_eq_some_iff.mpr ⟨inode, hfind, (h'.content_eq inode (Ne.symm hsame)).trans h.content⟩

/-- After a failure before the outputs nothing was done. -/
theorem allOrNothing_of_untouched {e : CliError} :
    AllOrNothing w key payload out attestation_out recipient_public_key (.failed e) w := by
  rw [allOrNothing_failed_iff [] rfl]
  exact ⟨by simp [HoldsOutput], by simp [HoldsOutput]⟩

/-- `lys seal` is all or nothing exactly where every step of its outputs is intact. -/
theorem OutputsEnd.allOrNothing_iff [GenuineEd25519] [Rfc7748X25519] [GenuineAes256Gcm] [LawfulSerdeJson SealedEnvelope]
    [AsciiSerdeJson SealedEnvelope] [Rfc8949Ciborium]
    (hsealed : Sealed w key payload recipient_public_key ephemeral_seed now recipient envelope attestation envelope_json)
    (h : OutputsEnd who out attestation_out envelope_json attestation.to_cose_bytes w ended w' intact) :
    AllOrNothing w key payload out attestation_out recipient_public_key ended w' ↔ intact := by
  have hnonempty : envelope_json ≠ [] := by
    obtain ⟨_, _, text, _, rfl⟩ := hsealed
    simp
  cases h with
  | untouched h => exact iff_of_true allOrNothing_of_untouched h
  | torn henvelope h =>
    obtain ⟨calls, htrace, _⟩ := henvelope.trace
    rw [allOrNothing_failed_iff calls htrace]
    exact iff_of_false (fun hnone => hnone.1 (holdsOutput_of_overwritten henvelope ⟨calls, htrace, List.Subset.refl _⟩ rfl)) h
  | unattested henvelope hremoved h =>
    obtain ⟨calls, htrace, _⟩ := henvelope.trace
    have hgone := (Fs.remove_file_eq_ok hremoved).2 out
    rw [if_pos rfl] at hgone
    rw [allOrNothing_failed_iff ((who, .remove_file out) :: calls) (congrArg _ htrace), h,
      and_iff_right (not_holdsOutput_of_absent hgone)]
    by_cases hpaths : out = attestation_out
    · subst hpaths
      simpa using not_holdsOutput_of_absent hgone
    · rw [holdsOutput_other_name_iff henvelope hnonempty htrace hremoved (Ne.symm hpaths), forall_prop_of_true hpaths]
  | half_attested henvelope hattestation hremoved h =>
    obtain ⟨calls, htrace, _⟩ := henvelope.trace
    obtain ⟨calls', htrace', _⟩ := hattestation.trace
    have hgone := (Fs.remove_file_eq_ok hremoved).2 out
    rw [if_pos rfl] at hgone
    rw [allOrNothing_failed_iff ((who, .remove_file out) :: (calls' ++ calls))
        (by rw [List.cons_append, List.append_assoc, ← htrace, ← htrace']), h,
      and_iff_right (not_holdsOutput_of_absent hgone)]
    by_cases hpaths : out = attestation_out
    · subst hpaths
      exact iff_of_true (not_holdsOutput_of_absent hgone) rfl
    · have hleft := (Fs.remove_file_eq_ok hremoved).2 attestation_out
      rw [if_neg (Ne.symm hpaths)] at hleft
      refine iff_of_false (not_not.mpr (holdsOutput_of_overwritten hattestation ⟨calls', htrace', ?_⟩ hleft)) hpaths
      exact fun entry hentry => List.mem_cons_of_mem _ (List.mem_append_left _ hentry)
  | complete henvelope hattestation hprinted h =>
    rw [h]
    obtain ⟨hattested, hleft⟩ := file_of_overwritten_twice henvelope hattestation
    rw [← hprinted] at hattested hleft
    constructor
    · rintro ⟨hdone, _⟩
      obtain ⟨sender, payload_bytes, envelope_bytes, _, _, _, henvelope', _, hpair⟩ := hdone rfl
      by_contra hsame
      rw [if_neg hsame] at hleft
      obtain rfl := Option.some.inj (hleft.symm.trans henvelope')
      exact not_isPair_of_attestation hpair
    · intro happart
      rw [if_pos happart] at hleft
      obtain ⟨sender, payload_bytes, hkey, hpayload, hpair⟩ := hsealed.isPair Who
      exact ⟨fun _ => ⟨sender, payload_bytes, _, _, hkey, hpayload, hleft, hattested, hpair⟩, fun hne => absurd rfl hne⟩

omit [RustFmt] [IoErrorText] [Sha2] [Ed25519Dalek] [Ed25519Scalar] [X25519Dalek] [HkdfSha256] [Aes256Gcm]
  [SerdeJson SealedEnvelope] [Ciborium] in
theorem intact_of_looks {start : World Who Console} (op : Op Console) (choice : Choice) (w : World Who Console)
    (h : op.looks = true) : Intact start out attestation_out op choice w := by
  refine ⟨?_, ?_, ?_⟩ <;> intros <;> subst_vars <;> cases h

omit [RustFmt] [IoErrorText] [Sha2] [Ed25519Dalek] [Ed25519Scalar] [X25519Dalek] [HkdfSha256] [Aes256Gcm]
  [SerdeJson SealedEnvelope] [Ciborium] in
theorem cleansUp_of_looks (op : Op Console) (choice : Choice) (w : World Who Console) (h : op.looks = true) :
    CleansUp op choice w := by
  rintro path rfl
  cases h

/-- A run of `lys seal` whose deletions succeed is all or nothing exactly when each of its
steps is intact: no write of an output fails, and the attestation is not written to the
envelope's file. With one path for both options, a run is all or nothing when it is not the
write of the envelope that fails and the one of the attestation never stores its last bytes. -/
theorem seal_all_or_nothing_iff [GenuineEd25519] [Rfc7748X25519] [GenuineAes256Gcm] [LawfulSerdeJson SealedEnvelope]
    [AsciiSerdeJson SealedEnvelope] [Rfc8949Ciborium] {choices : List Choice}
    (hout : (run who (seal_command key recipient_public_key payload out attestation_out ephemeral_seed now) choices
      w).outcome = some ended)
    (hcleanup : Meets who CleansUp (seal_command key recipient_public_key payload out attestation_out ephemeral_seed now)
      choices w) :
    AllOrNothing w key payload out attestation_out recipient_public_key ended
        (run who (seal_command key recipient_public_key payload out attestation_out ephemeral_seed now) choices w).state ↔
      Meets who (Intact w out attestation_out)
        (seal_command key recipient_public_key payload out attestation_out ephemeral_seed now) choices w := by
  obtain ⟨e, rest, hlooked⟩ | ⟨recipient, envelope, attestation, envelope_json, rest, hsealed, hlooked⟩ :=
    looked_seal_command hout
  · rw [hlooked.meets_iff _ intact_of_looks]
    rw [hlooked.run_eq, run_fail] at hout ⊢
    obtain rfl := Option.some.inj hout
    exact iff_of_true allOrNothing_of_untouched meets_fail
  · rw [hlooked.meets_iff _ cleansUp_of_looks] at hcleanup
    rw [hlooked.meets_iff _ intact_of_looks]
    rw [hlooked.run_eq] at hout ⊢
    exact (outputs_end hout hcleanup).allOrNothing_iff hsealed

end Ends

section

open reference

/-- The envelope's write fails after its first byte, which stays at `--out`. -/
theorem seal_leaves_torn_envelope :
    ∃ choices e, (run () (seal_payload envelope_path attestation_path) choices sealing_world).outcome = some (.failed e) ∧
      Meets () CleansUp (seal_payload envelope_path attestation_path) choices sealing_world ∧
      (run () (seal_payload envelope_path attestation_path) choices sealing_world).state.fs.file envelope_path = some [0x7b] ∧
      ¬ AllOrNothing sealing_world key_path payload_path envelope_path attestation_path
        (hex_lower zero_x25519_public_key.as_slice) (.failed e)
        (run () (seal_payload envelope_path attestation_path) choices sealing_world).state := by
  have hrun : (run () (seal_payload envelope_path attestation_path)
        [.proceed, .proceed, .proceed, .proceed, .stores 1, .fault] sealing_world).outcome =
          some (.failed (.Io "failed to write sealed envelope file /envelope.json" .Other)) ∧
      Meets () CleansUp (seal_payload envelope_path attestation_path)
        [.proceed, .proceed, .proceed, .proceed, .stores 1, .fault] sealing_world ∧
      (run () (seal_payload envelope_path attestation_path)
        [.proceed, .proceed, .proceed, .proceed, .stores 1, .fault] sealing_world).state.fs.file envelope_path =
          some [0x7b] ∧
      (run () (seal_payload envelope_path attestation_path)
        [.proceed, .proceed, .proceed, .proceed, .stores 1, .fault] sealing_world).state.fs.find envelope_path =
          some (.file 2) ∧
      (run () (seal_payload envelope_path attestation_path)
        [.proceed, .proceed, .proceed, .proceed, .stores 1, .fault] sealing_world).state.trace =
          [((), .write 2 0 (as_bytes (envelope_text zero_envelope ++ ['\n']))), ((), .create envelope_path)] ++
            sealing_world.trace := by
    decide +kernel
  obtain ⟨hout, hcleanup, hfile, hfind, htrace⟩ := hrun
  refine ⟨_, _, hout, hcleanup, hfile, fun h => ?_⟩
  rw [allOrNothing_failed_iff _ htrace] at h
  exact h.1 ⟨2, hfind, ((), .create envelope_path), by simp, .inl rfl⟩

/-- Without faults the two outputs are a pair. -/
theorem seal_all_or_nothing_iff_two_files :
    ∃ choices, (∀ choice ∈ choices, choice.faultless = true) ∧
      (run () (seal_payload envelope_path attestation_path) choices sealing_world).outcome = some (.done ()) ∧
      (AllOrNothing sealing_world key_path payload_path envelope_path attestation_path
          (hex_lower zero_x25519_public_key.as_slice) (.done ())
          (run () (seal_payload envelope_path attestation_path) choices sealing_world).state ↔
        Meets () (Intact sealing_world envelope_path attestation_path)
          (seal_payload envelope_path attestation_path) choices sealing_world) := by
  have hrun : (run () (seal_payload envelope_path attestation_path) [.proceed, .proceed, .proceed, .proceed, .stores 600,
        .proceed, .stores 199, .proceed, .proceed, .proceed, .proceed, .proceed] sealing_world).outcome = some (.done ()) ∧
      Meets () CleansUp (seal_payload envelope_path attestation_path) [.proceed, .proceed, .proceed, .proceed, .stores 600,
        .proceed, .stores 199, .proceed, .proceed, .proceed, .proceed, .proceed] sealing_world := by
    decide +kernel
  exact ⟨_, by decide, hrun.1, seal_all_or_nothing_iff hrun.1 hrun.2⟩

end

end lys
