import Lys.RustStd.Array

open rust

namespace fips180

/-- The round constants of SHA-256. -/
def K : List Nat := [
  0x428a2f98, 0x71374491, 0xb5c0fbcf, 0xe9b5dba5, 0x3956c25b, 0x59f111f1, 0x923f82a4, 0xab1c5ed5,
  0xd807aa98, 0x12835b01, 0x243185be, 0x550c7dc3, 0x72be5d74, 0x80deb1fe, 0x9bdc06a7, 0xc19bf174,
  0xe49b69c1, 0xefbe4786, 0x0fc19dc6, 0x240ca1cc, 0x2de92c6f, 0x4a7484aa, 0x5cb0a9dc, 0x76f988da,
  0x983e5152, 0xa831c66d, 0xb00327c8, 0xbf597fc7, 0xc6e00bf3, 0xd5a79147, 0x06ca6351, 0x14292967,
  0x27b70a85, 0x2e1b2138, 0x4d2c6dfc, 0x53380d13, 0x650a7354, 0x766a0abb, 0x81c2c92e, 0x92722c85,
  0xa2bfe8a1, 0xa81a664b, 0xc24b8b70, 0xc76c51a3, 0xd192e819, 0xd6990624, 0xf40e3585, 0x106aa070,
  0x19a4c116, 0x1e376c08, 0x2748774c, 0x34b0bcb5, 0x391c0cb3, 0x4ed8aa4a, 0x5b9cca4f, 0x682e6ff3,
  0x748f82ee, 0x78a5636f, 0x84c87814, 0x8cc70208, 0x90befffa, 0xa4506ceb, 0xbef9a3f7, 0xc67178f2]

def word (n : Nat) : Nat := n % 2 ^ 32

def rotr (k x : Nat) : Nat := word (x >>> k ||| x <<< (32 - k))

def Ch (x y z : Nat) : Nat := x &&& y ^^^ (2 ^ 32 - 1 - x) &&& z

def Maj (x y z : Nat) : Nat := x &&& y ^^^ x &&& z ^^^ y &&& z

def Sigma0 (x : Nat) : Nat := rotr 2 x ^^^ rotr 13 x ^^^ rotr 22 x

def Sigma1 (x : Nat) : Nat := rotr 6 x ^^^ rotr 11 x ^^^ rotr 25 x

def sigma0 (x : Nat) : Nat := rotr 7 x ^^^ rotr 18 x ^^^ x >>> 3

def sigma1 (x : Nat) : Nat := rotr 17 x ^^^ rotr 19 x ^^^ x >>> 10

/-- The eight working variables. -/
structure State where
  a : Nat
  b : Nat
  c : Nat
  d : Nat
  e : Nat
  f : Nat
  g : Nat
  h : Nat

def H0 : State := ⟨0x6a09e667, 0xbb67ae85, 0x3c6ef372, 0xa54ff53a, 0x510e527f, 0x9b05688c, 0x1f83d9ab, 0x5be0cd19⟩

def round (s : State) (k w : Nat) : State :=
  let t₁ := s.h + Sigma1 s.e + Ch s.e s.f s.g + k + w
  let t₂ := Sigma0 s.a + Maj s.a s.b s.c
  ⟨word (t₁ + t₂), s.a, s.b, s.c, word (s.d + t₁), s.e, s.f, s.g⟩

/-- The rounds over the message schedule, whose next sixteen words are `window`. -/
def rounds (s : State) (window : List Nat) : List Nat → State
  | [] => s
  | k :: ks =>
    let w := window.getD 0 0
    let next := word (sigma1 (window.getD 14 0) + window.getD 9 0 + sigma0 (window.getD 1 0) + w)
    rounds (round s k w) (window.tail ++ [next]) ks

/-- Big-endian words of a block. -/
def words : Bytes → List Nat
  | a :: b :: c :: d :: rest =>
    (((a.toNat * 256 + b.toNat) * 256 + c.toNat) * 256 + d.toNat) :: words rest
  | _ => []

def compress (s : State) (block : Bytes) : State :=
  let t := rounds s (words block) K
  ⟨word (s.a + t.a), word (s.b + t.b), word (s.c + t.c), word (s.d + t.d), word (s.e + t.e),
    word (s.f + t.f), word (s.g + t.g), word (s.h + t.h)⟩

/-- The message, one bit, zeros up to 56 modulo 64 bytes, the length in bits. -/
def pad (message : Bytes) : Bytes :=
  message ++ 0x80 :: (List.replicate ((119 - message.length % 64) % 64) 0 ++ to_be_bytes 8 (message.length * 8))

def sha256 (message : Bytes) : U8Array 32 :=
  let s := (chunks_exact 64 (pad message)).foldl compress H0
  ⟨[s.a, s.b, s.c, s.d, s.e, s.f, s.g, s.h].flatMap (to_be_bytes 4), by simp [length_to_be_bytes]⟩

end fips180
