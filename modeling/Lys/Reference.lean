import Lys.Fips180.Sha256
import Lys.Keys.Identity

open rust

/-! Concrete crates for evaluating the model on fixed inputs. -/

namespace reference

/-- An array from the big-endian value of its bytes. -/
def of_hex (n value : Nat) : U8Array n := ⟨to_be_bytes n value, length_to_be_bytes n value⟩

scoped instance : lys.Sha2 := ⟨fips180.sha256⟩

scoped instance : lys.Base64 where
  encode := rfc4648.encode
  decode s := ok_or (rfc4648.decode s) "Invalid input."

scoped instance : lys.StandardBase64 where
  encode_eq _ := rfl
  decode_eq_ok_iff s bytes := by
    change ok_or (rfc4648.decode s) _ = .ok bytes ↔ _
    rw [ok_or_eq_ok_iff, rfc4648.decode_eq_some_iff]

/-- The Ed25519 public key of the zero seed. -/
def zero_public_key : U8Array 32 :=
  of_hex 32 0x3b6a27bcceb6a42d62a3a8d02a6f0d73653215771de243a63ac048a18b59da29

/-- Ed25519 public keys of fixed seeds. -/
def known_keys : List (U8Array 32 × U8Array 32) := [(of_hex 32 0, zero_public_key), (U8Array.repeat_byte 32 1,
  of_hex 32 0x8a88e3dd7409f195fd52db2d3cba5d72ca6709bf1d94121bf3748801b40f6f5c)]

/-- Ed25519 signatures of the zero seed. -/
def zero_signatures : List (Bytes × U8Array 64) := [
  (as_bytes "a\n".toList,
    of_hex 64 0x327aea720d2e18dfbb8f985e0bb786229665929de7394d7c49b14a201e0c1f3a8a10e27e5388e59b720b08f896cb1f01209a5cb07b322c50f418e51485ab2d03),
  (as_bytes "log\n1\nPH6byTDck/AfppmF7yQtn56GHzxTVaokzl70tLinDMs=\n".toList,
    of_hex 64 0x0bdf1cf955bc5e23df053ecf5914afefcf2b9f234868280f9eba327b49d89b76e76e9d21163b2a11b0bc1a8ec48f0d0f6226846196710680889fc23de662c50c),
  (as_bytes "log\n2\nLW6UPoWsCd1q8YK/n8kEGr5wYJFJo9LVVxfgnjdQfm0=\n".toList,
    of_hex 64 0xa62bab803a357fa1b5b0cc9c7789921b29e0ae3862b630cd71db3c2004f842d4e091677497ac22e52a2c0f68f5efa60e620bd3e9e97c6e18cfe1461283dfc607),
  (to_be_bytes 143 0x846a5369676e6174757265315850a301270378276170706c69636174696f6e2f766e642e6c79732e6174746573746174696f6e2e76322b63626f720458203b6a27bcceb6a42d62a3a8d02a6f0d73653215771de243a63ac048a18b59da2940582ea20158202d711642b726b04401627ca9fbac32f5c8530fb1903cc4db02258717921a4881021b0000018bcfe56800,
    of_hex 64 0xc9f6661daa693821869895039be12c207212645b3287cc119a5bf34377af0ab3e6c22269b04b9c94c66cea560c9c0fd4cdd469b3a2d7b3b95b7bc06af6d3710a),
  (to_be_bytes 143 0x846a5369676e6174757265315850a301270378276170706c69636174696f6e2f766e642e6c79732e6174746573746174696f6e2e76322b63626f720458203b6a27bcceb6a42d62a3a8d02a6f0d73653215771de243a63ac048a18b59da2940582ea2015820a0e7bfef10a35031b682e0299f6adac5456e95a2500c496d6b7bcc684c0bba1d021b0000018bcfe56800,
    of_hex 64 0x3afedad92e1a932aa94e84256af759c5c88b7c35fdce2556bddddd73de8ac68b59a44b4cf4b49761d5d7ce8f79a6a033cf633b11426c14aad8e030badc8c5e04),
  (to_be_bytes 143 0x846a5369676e6174757265315850a301270378276170706c69636174696f6e2f766e642e6c79732e6174746573746174696f6e2e76322b63626f720458203b6a27bcceb6a42d62a3a8d02a6f0d73653215771de243a63ac048a18b59da2940582ea20158202c4e799d310be2ef951049c711ab5e9bc68088947a6330e04ab42e796e646fc1021b0000018bcfe56800,
    of_hex 64 0x31ec116817394e95dc2d20380b2957fc9e802094dc126c669ee60515574f62ad592b57368ff75aee1cbd4b6b398cf281ae8ddd08242c5efefa394369d62eaf06),
  (to_be_bytes 261 0x30820101a003020102021434750f98bd59fcfc946da45aaabe933be154a4b5300506032b6570304b3149304706035504030c4033623661323762636365623661343264363261336138643032613666306437333635333231353737316465323433613633616330343861313862353964613239301e170d3233313131343232313332305a170d3233313131343232313332305a3010310e300c06035504030c056167656e74302a300506032b65700321008a88e3dd7409f195fd52db2d3cba5d72ca6709bf1d94121bf3748801b40f6f5ca3323030301d0603551d0e04160414fd110d301d2f077de1414b8f99f441b1403fab20300f0603551d130101ff04053003010100,
    of_hex 64 0x5536656bd8e7300ba9f06e6d0b67fb97d6984c5f452550ff021146776ed7090b9861ca94effefbfebfa7b4d05ae40a82fc18fc13098f38afda572158476eca04)]

/-- The one signature of a message under a key: Ed25519's where it is listed. -/
def signature_of (public_key : U8Array 32) (message : Bytes) : U8Array 64 :=
  (if public_key = zero_public_key then zero_signatures.lookup message else none).getD
    ⟨(fips180.sha256 (public_key.as_slice ++ message)).as_slice ++
      (fips180.sha256 (message ++ public_key.as_slice)).as_slice, by simp⟩

scoped instance : lys.Ed25519Dalek where
  verifying_key seed := (known_keys.lookup seed).getD (fips180.sha256 seed.as_slice)
  sign seed message := signature_of ((known_keys.lookup seed).getD (fips180.sha256 seed.as_slice)) message
  is_valid_key _ := true
  verify_strict public_key message signature := signature = signature_of public_key message

scoped instance : lys.GenuineEd25519 where
  is_valid_key _ := rfl
  verify_strict _ _ := decide_eq_true rfl

def zero_identity : lys.Ed25519Identity := lys.Ed25519Identity.from_seed (of_hex 32 0)

/-- A `u8` is its own encoding. -/
scoped instance : lys.Postcard UInt8 := ⟨fun byte => .ok [byte]⟩

scoped instance : lys.Ciborium where
  from_reader bytes := ok_or ((rfc8949.decode 64 bytes).map Prod.fst) "invalid item"

scoped instance : lys.Rfc8949Ciborium where
  from_reader_encode value rest h := by
    change ok_or ((rfc8949.decode 64 _).map Prod.fst) _ = .ok value
    rw [rfc8949.decode_encode h]
    rfl

/-- Two X25519 secrets, their public keys and the secret they share. -/
def one_secret : U8Array 32 := U8Array.repeat_byte 32 1
def two_secret : U8Array 32 := U8Array.repeat_byte 32 2
def one_public_key : U8Array 32 := of_hex 32 0xa4e09292b651c278b9772c569f5fa9bb13d906b46ab68c9df9dc2b4409f8a209
def two_public_key : U8Array 32 := of_hex 32 0xce8d3ad1ccb633ec7b70c17814a5c76ecd029685050d344745ba05870e587d59
def shared_secret : U8Array 32 := of_hex 32 0x2ed76ab549b1e73c031eb49c9448f0798aea81b698279a0c3dc3e49fbfc4b953

/-- The scalar of the zero seed, its X25519 public key and the secret it shares with `two_secret`. -/
def zero_scalar : U8Array 32 := of_hex 32 0x5046adc1dba838867b2bbbfdd0c3423e58b57970b5267a90f57960924a87f196
def zero_x25519_public_key : U8Array 32 :=
  of_hex 32 0x5bf55c73b82ebe22be80f3430667af570fae2556a6415e6b30d4065300aa947d
def zero_shared_secret : U8Array 32 := of_hex 32 0x736c5a32ad90961c6bed215806990a6b47464f3c87fb1ec6fc06d7b3c41bd02c

scoped instance : lys.Ed25519Scalar where
  to_scalar_bytes seed := if seed = of_hex 32 0 then zero_scalar else fips180.sha256 seed.as_slice

/-- A public key without its unused bit 255. -/
def clear_top_bit (key : U8Array 32) : U8Array 32 :=
  ⟨key.as_slice.take 31 ++ (key.as_slice.drop 31).map (· &&& 0x7f), by simp⟩

/-- The secret shared by the holders of two public keys. -/
def shared_secret_of (a b : U8Array 32) : U8Array 32 :=
  if (a = one_public_key ∧ b = two_public_key) ∨ (b = one_public_key ∧ a = two_public_key) then shared_secret
  else if (a = zero_x25519_public_key ∧ b = two_public_key) ∨ (b = zero_x25519_public_key ∧ a = two_public_key) then
    zero_shared_secret
  else fips180.sha256 (List.zipWith (· + ·) a.as_slice b.as_slice)

theorem shared_secret_of_comm (a b : U8Array 32) : shared_secret_of a b = shared_secret_of b a := by
  have hbytes : List.zipWith (· + ·) a.as_slice b.as_slice = List.zipWith (· + ·) b.as_slice a.as_slice := by
    rw [List.zipWith_comm]
    simp only [UInt8.add_comm]
  rw [shared_secret_of, shared_secret_of, hbytes]
  exact if_congr Or.comm rfl (if_congr Or.comm rfl rfl)

/-- The X25519 public key of a secret where it is listed. -/
def x25519_public_key (seed : U8Array 32) : U8Array 32 :=
  if seed = one_secret then one_public_key
  else if seed = two_secret then two_public_key
  else if seed = zero_scalar then zero_x25519_public_key
  else fips180.sha256 seed.as_slice

scoped instance : lys.X25519Dalek where
  public_key := x25519_public_key
  diffie_hellman seed key := shared_secret_of (clear_top_bit (x25519_public_key seed)) (clear_top_bit key)
  was_contributory shared := shared ≠ U8Array.repeat_byte 32 0

scoped instance : lys.Rfc7748X25519 where
  diffie_hellman_comm _ _ := shared_secret_of_comm _ _

/-- HMAC-SHA256 with a key of at most 64 bytes. -/
def hmac (key message : Bytes) : Bytes :=
  let block := key ++ List.replicate (64 - key.length) 0
  (fips180.sha256 (block.map (· ^^^ 0x5c) ++
    (fips180.sha256 (block.map (· ^^^ 0x36) ++ message)).as_slice)).as_slice

/-- The blocks `T(i)` of HKDF from the one before them. -/
def hkdf_blocks (prk info : Bytes) : Nat → Nat → Bytes → Bytes
  | 0, _, _ => []
  | count + 1, i, previous =>
    let block := hmac prk (previous ++ info ++ [UInt8.ofNat i])
    block ++ hkdf_blocks prk info count (i + 1) block

scoped instance : lys.HkdfSha256 where
  expand n ikm info :=
    ok_or (U8Array.try_from n ((hkdf_blocks (hmac [] ikm) info ((n + 31) / 32) 1 []).take n)) "invalid length"

/-- AES-256-GCM of one message under the keys and nonces of `shared_secret` that belong to
`one_public_key` and to its encoding with bit 255 set, and under those of `zero_shared_secret`. -/
def known_ciphertexts : List ((U8Array 32 × U8Array 12 × Bytes) × Bytes) := [
  ((of_hex 32 0x9a85f44649016966b4dcb4d4320729d47a4f52e2308266b2a1b6f3dc6c994a1b, of_hex 12 0x369a107449c885078d7165bb,
    [0x78]), to_be_bytes 17 0x96c3aefccc6dea016156f84ca22e13a4f1),
  ((of_hex 32 0x7e7d8b7a8b4164882d6f6b5ee57ee1211f36179b8fa48fe2a96b147b782a6538, of_hex 12 0x7447a933da9a53c9753f9b47,
    [0x78]), to_be_bytes 17 0x89557c64bd4cb64ee12489ee728c186e43),
  ((of_hex 32 0x13a2feb6cc8bb6c62c44ef67f6e5903d62b2c011d45debd8785b74e4206c5f67, of_hex 12 0xb7481969afcc982c24f92ecf,
    [0x78]), to_be_bytes 17 0x276e7613bde1d7abdd7db2fdf5b1b9ecc0)]

/-- A stand-in tag. -/
def tag_of (key : U8Array 32) (nonce : U8Array 12) (message : Bytes) : Bytes :=
  (fips180.sha256 (key.as_slice ++ nonce.as_slice ++ message)).as_slice.take 16

def ciphertext_of (key : U8Array 32) (nonce : U8Array 12) (message : Bytes) : Bytes :=
  (known_ciphertexts.lookup (key, nonce, message)).getD (message ++ tag_of key nonce message)

theorem append_tag_of_inj {key : U8Array 32} {nonce : U8Array 12} {a b : Bytes}
    (h : a ++ tag_of key nonce a = b ++ tag_of key nonce b) : a = b :=
  List.append_inj_left' h (by simp [tag_of])

/-- No listed ciphertext is a message with its stand-in tag, and none is listed twice. -/
theorem known_ciphertexts_spec : ∀ entry ∈ known_ciphertexts,
    (∀ entry' ∈ known_ciphertexts, entry'.2 = entry.2 → entry'.1 = entry.1) ∧
      (entry.2.take 1 ++ tag_of entry.1.1 entry.1.2.1 (entry.2.take 1) ≠ entry.2) ∧ entry.2.length = 17 := by
  decide +kernel

theorem mem_of_lookup_eq_some {α β : Type} [BEq α] [LawfulBEq α] {entries : List (α × β)} {a : α} {b : β}
    (h : entries.lookup a = some b) : (a, b) ∈ entries := by
  obtain ⟨front, back, rfl, _⟩ := List.lookup_eq_some_iff.mp h
  simp

/-- A listed ciphertext differs from every message with its stand-in tag. -/
theorem append_tag_of_ne_known {key : U8Array 32} {nonce : U8Array 12} {a b ciphertext : Bytes}
    (h : ((key, nonce, a), ciphertext) ∈ known_ciphertexts) : b ++ tag_of key nonce b ≠ ciphertext := by
  rintro rfl
  obtain ⟨_, hne, hlength⟩ := known_ciphertexts_spec _ h
  have hb : b.length = 1 := by simpa [tag_of] using hlength
  have htake : (b ++ tag_of key nonce b).take 1 = b := List.take_left' hb
  rw [htake] at hne
  exact hne rfl

theorem ciphertext_of_injective (key : U8Array 32) (nonce : U8Array 12) :
    Function.Injective (ciphertext_of key nonce) := by
  intro a b h
  simp only [ciphertext_of] at h
  cases ha : known_ciphertexts.lookup (key, nonce, a) with
  | some c =>
    have hmem := mem_of_lookup_eq_some ha
    cases hb : known_ciphertexts.lookup (key, nonce, b) with
    | some d =>
      rw [ha, hb] at h
      obtain rfl : c = d := h
      have hentry := (known_ciphertexts_spec _ (mem_of_lookup_eq_some hb)).1 _ hmem rfl
      simp only [Prod.mk.injEq, true_and] at hentry
      exact hentry
    | none =>
      rw [ha, hb] at h
      exact absurd h.symm (append_tag_of_ne_known hmem)
  | none =>
    cases hb : known_ciphertexts.lookup (key, nonce, b) with
    | some d =>
      rw [ha, hb] at h
      exact absurd h (append_tag_of_ne_known (mem_of_lookup_eq_some hb))
    | none =>
      rw [ha, hb] at h
      exact append_tag_of_inj h

scoped instance : lys.Aes256Gcm where
  encrypt key nonce message := .ok (ciphertext_of key nonce message)
  decrypt key nonce ciphertext :=
    ok_or (((known_ciphertexts.map fun entry => entry.1.2.2) ++ [ciphertext.take (ciphertext.length - 16)]).find?
      fun message => ciphertext_of key nonce message = ciphertext) "aead::Error"

scoped instance : lys.GenuineAes256Gcm where
  decrypt_eq_ok key nonce message ciphertext h := by
    obtain rfl := Except.ok.inj h
    change ok_or (List.find? _ _) _ = _
    rw [ok_or_eq_ok_iff]
    have hmem : message ∈ (known_ciphertexts.map fun entry => entry.1.2.2) ++
        [(ciphertext_of key nonce message).take ((ciphertext_of key nonce message).length - 16)] := by
      cases hlookup : known_ciphertexts.lookup (key, nonce, message) with
      | some c =>
        exact List.mem_append_left _ (List.mem_map.mpr ⟨_, mem_of_lookup_eq_some hlookup, rfl⟩)
      | none =>
        have hform : ciphertext_of key nonce message = message ++ tag_of key nonce message := by
          rw [ciphertext_of, hlookup]
          rfl
        rw [hform]
        simp [tag_of]
    cases hfind : List.find? (fun m => decide (ciphertext_of key nonce m = ciphertext_of key nonce message))
        ((known_ciphertexts.map fun entry => entry.1.2.2) ++
          [(ciphertext_of key nonce message).take ((ciphertext_of key nonce message).length - 16)]) with
    | none => exact absurd (List.find?_eq_none.mp hfind message hmem) (by simp)
    | some found =>
      have hfound := List.find?_some hfind
      rw [ciphertext_of_injective key nonce (of_decide_eq_true hfound)]

/-- The digests of a proof in byte form. -/
def digests (proof : Bytes) : List (U8Array 32) := (chunks_exact 32 proof).filterMap (U8Array.try_from 32)

theorem digests_flatMap (hashes : List (U8Array 32)) : digests (hashes.flatMap U8Array.as_slice) = hashes := by
  rw [digests, chunks_exact_flatten (by decide), List.filterMap_map]
  simp

/-- A check of a proof's digests is a check of the hashes it concatenates. -/
theorem digests_iff {proof : Bytes} {check : List (U8Array 32) → Bool} :
    ((digests proof).flatMap U8Array.as_slice = proof ∧ check (digests proof) = true) ↔
      ∃ hashes, proof = hashes.flatMap U8Array.as_slice ∧ check hashes = true := by
  constructor
  · rintro ⟨hproof, hcheck⟩
    exact ⟨digests proof, hproof.symm, hcheck⟩
  · rintro ⟨hashes, rfl, hcheck⟩
    rw [digests_flatMap]
    exact ⟨rfl, hcheck⟩

scoped instance : lys.CtMerkle where
  root leaves := rfc6962.mth lys.sha256_hasher leaves
  prove_inclusion leaves i := (rfc6962.path lys.sha256_hasher i leaves).flatMap U8Array.as_slice
  prove_consistency leaves num_additions :=
    (rfc6962.proof lys.sha256_hasher (leaves.length - num_additions) leaves).flatMap U8Array.as_slice
  inclusion_try_from_bytes bytes :=
    if 32 ∣ bytes.length then .ok bytes else .error "malformed inclusion proof"
  consistency_try_from_bytes bytes :=
    if 32 ∣ bytes.length then .ok bytes else .error "malformed consistency proof"
  verify_inclusion root n leaf i proof :=
    if (digests proof).flatMap U8Array.as_slice = proof ∧ rfc6962.verify_path lys.sha256_hasher root
        (lys.sha256_hasher.leaf leaf) i.toNat n.toNat (digests proof) = true then .ok ()
    else .error "incorrect hash"
  verify_consistency new n old m proof :=
    if m = n then if new = old ∧ proof = [] then .ok () else .error "incorrect hash"
    else if (digests proof).flatMap U8Array.as_slice = proof ∧ rfc6962.verify_proof lys.sha256_hasher old new
        m.toNat n.toNat (digests proof) = true then .ok ()
    else .error "incorrect hash"

theorem if_ok_eq_ok_iff {α : Type} {c : Prop} [Decidable c] {a b : α} {e : String} :
    (if c then (.ok a : Except String α) else .error e) = .ok b ↔ b = a ∧ c := by
  split <;> simp_all [eq_comm]

scoped instance : lys.Rfc6962CtMerkle where
  root_eq _ := rfl
  prove_inclusion_eq _ _ _ := rfl
  prove_consistency_eq leaves m hpos hm := by
    change (rfc6962.proof _ (leaves.length - (leaves.length - m)) leaves).flatMap _ = _
    rw [show leaves.length - (leaves.length - m) = m by omega]
  inclusion_try_from_bytes_eq_ok_iff _ _ := if_ok_eq_ok_iff
  consistency_try_from_bytes_eq_ok_iff _ _ := if_ok_eq_ok_iff
  verify_inclusion_eq_ok_iff root n leaf i proof _ := by
    exact (if_ok_eq_ok_iff.trans (and_iff_right rfl)).trans digests_iff
  verify_consistency_eq_ok_iff new n old m proof _ _ hlt := by
    have hne : m ≠ n := UInt64.ne_of_lt hlt
    change (if m = n then _ else _) = Except.ok () ↔ _
    rw [if_neg hne]
    exact (if_ok_eq_ok_iff.trans (and_iff_right rfl)).trans digests_iff

scoped instance : lys.SameSizeCtMerkle where
  prove_consistency_zero leaves hne := by
    have hproof : rfc6962.proof lys.sha256_hasher leaves.length leaves = [] := by
      rw [rfc6962.proof, rfc6962.subproof, if_pos le_rfl, if_pos rfl]
    change (rfc6962.proof _ (leaves.length - 0) leaves).flatMap _ = _
    rw [Nat.sub_zero, hproof]
    rfl
  verify_consistency_self root n _ _ := by
    change (if n = n then _ else _) = Except.ok ()
    rw [if_pos rfl, if_pos ⟨rfl, rfl⟩]

end reference
