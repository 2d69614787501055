import CoinScript.Hash.Hmac
import CoinScript.Secp256k1.Der
import CoinScript.Secp256k1.PublicKey

/-!
# ECDSA

Signing and verifying 32-byte messages. The secret number of a signature is derived from the key and
the message, so that the same message always gets the same signature.
-/

namespace CoinScript.Secp256k1

/-- A scalar other than zero. -/
structure SecretKey where
  scalar : Scalar
  deriving DecidableEq, Repr

namespace SecretKey

/-- The key with 32 given bytes, if they denote a scalar other than zero. -/
def ofBytes? (bytes : Bytes) : Option SecretKey :=
  match ofNat? groupOrder bytes.toNatBE with
  | some scalar => if scalar = 0 then none else some ⟨scalar⟩
  | none => none

def bytes (key : SecretKey) : Bytes := Bytes.ofNatBE 32 key.scalar.val

/-- The public key, a multiple of the generator. -/
def publicPoint? (key : SecretKey) : Option Point :=
  ((Jacobian.ofPoint generator).multiple key.scalar.val).toPoint?

end SecretKey

/-- The scalar of a message. -/
def messageScalar (message : Digest 32) : Scalar := Scalar.ofNat message.bytes.toNatBE

-- ---------------------------------------------------------------------------
-- Verifying
-- ---------------------------------------------------------------------------

/-- Whether a signature of the message verifies under a key. -/
def verify (key : Point) (message : Digest 32) (sig : Signature) : Bool :=
  let sig := sig.normalized
  if sig.r = 0 ∨ sig.s = 0 then false
  else
    let w := inverse sig.s
    match linearCombination? (messageScalar message * w) generator (sig.r * w) key with
    | none => false
    | some p => Scalar.ofNat p.x.val = sig.r

-- ---------------------------------------------------------------------------
-- Signing
-- ---------------------------------------------------------------------------

/-- The signature with a given secret number, if that gives one. -/
def signWith? (key : SecretKey) (message : Digest 32) (nonce : SecretKey) : Option Signature := do
  let p ← nonce.publicPoint?
  let r := Scalar.ofNat p.x.val
  let s := inverse nonce.scalar * (messageScalar message + r * key.scalar)
  if r = 0 ∨ s = 0 then none else some (Signature.normalized ⟨r, s⟩)

/-- Tries the secret numbers that a generator yields, as often as `attempts` says. -/
def signFrom? (key : SecretKey) (message : Digest 32) : (attempts : Nat) → HmacDrbg → Option Signature
  | 0, _ => none
  | attempts + 1, g =>
    let (bytes, g) := g.next
    match (SecretKey.ofBytes? bytes).bind (signWith? key message) with
    | some sig => some sig
    | none => signFrom? key message attempts g.reject

/-- How many secret numbers are tried. That even the first does not do is beyond practical odds. -/
def signAttempts : Nat := 64

/-- What the secret numbers are derived from: the key and the scalar of the message. -/
def nonceSeed (key : SecretKey) (message : Digest 32) : Bytes :=
  key.bytes ++ Bytes.ofNatBE 32 (messageScalar message).val

def sign? (key : SecretKey) (message : Digest 32) : Option Signature :=
  signFrom? key message signAttempts (HmacDrbg.seeded (nonceSeed key message))

end CoinScript.Secp256k1
