import Lys.Keys.Identity

open rust

namespace lys.Ed25519Identity

variable [Ed25519Dalek] [Ed25519Scalar] [X25519Dalek]

/-- The X25519 secret of an identity, in its byte form. -/
def x25519_static_secret (identity : Ed25519Identity) : U8Array 32 :=
  Ed25519Scalar.to_scalar_bytes identity.signing_key

/-- The X25519 public key of an identity. -/
def x25519_public_key (identity : Ed25519Identity) : U8Array 32 := X25519Dalek.public_key identity.x25519_static_secret

end lys.Ed25519Identity
