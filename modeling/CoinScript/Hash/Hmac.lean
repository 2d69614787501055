import CoinScript.Hash

/-!
# Keyed hashing with SHA-256

HMAC, and the generator of pseudorandom bytes that is built on it.
-/

namespace CoinScript

/-- HMAC-SHA256 with a key of at most 64 bytes. -/
def hmacSha256 (key message : Bytes) : Bytes :=
  let key := key ++ List.replicate (64 - key.length) 0
  let inner := (sha256 (key.map (· ^^^ 0x36) ++ message)).bytes
  (sha256 (key.map (· ^^^ 0x5c) ++ inner)).bytes

/-- State of the generator: a key and the bytes produced last. -/
structure HmacDrbg where
  key : Bytes
  value : Bytes
  deriving DecidableEq, Repr

namespace HmacDrbg

/-- A new key from the old one, the last bytes, a separator and more input; then new bytes. -/
def update (g : HmacDrbg) (separator : UInt8) (input : Bytes) : HmacDrbg :=
  let key := hmacSha256 g.key (g.value ++ separator :: input)
  ⟨key, hmacSha256 key g.value⟩

/-- The generator for a seed. -/
def seeded (seed : Bytes) : HmacDrbg :=
  let g : HmacDrbg := ⟨List.replicate 32 0x00, List.replicate 32 0x01⟩
  (g.update 0x00 seed).update 0x01 seed

/-- The next 32 bytes. -/
def next (g : HmacDrbg) : Bytes × HmacDrbg :=
  let value := hmacSha256 g.key g.value
  (value, { g with value })

/-- The generator after its bytes have been rejected. -/
def reject (g : HmacDrbg) : HmacDrbg := g.update 0x00 []

end HmacDrbg

end CoinScript
