import CoinScript.Secp256k1.Ecdsa
import CoinScript.Signature.Encoding

/-!
# Checkers

How scripts consult the transaction that spends an output: whether it carries a valid signature, and
whether its lock time is late enough.
-/

namespace CoinScript

/-- Answers to the questions that scripts ask about a transaction. -/
structure Checker where
  /-- Whether a signature, with its hash type, of a digest is valid under a key. -/
  checkSig : (sig key : Bytes) → (sighash : Digest 32) → Bool
  /-- Whether a lock time has been reached. -/
  checkLockTime : Int → Bool

/-- A question asked of a checker. -/
inductive Query where
  | signature (sig key : Bytes) (sighash : Digest 32)
  | lockTime (value : Int)
  deriving DecidableEq, Repr

namespace Checker

/-- The checker that rejects everything. -/
def rejecting : Checker := ⟨fun _ _ _ => false, fun _ => false⟩

/-- Lock times below this are block heights, others are times in seconds. -/
def lockTimeThreshold : Int := 500000000

/-- Whether a key verifies a DER signature of a digest. -/
def verifySignature (der key : Bytes) (sighash : Digest 32) : Bool :=
  match Secp256k1.Point.ofBytes? key, Secp256k1.Signature.ofLaxDer? der with
  | some key, some sig => Secp256k1.verify key sighash sig
  | _, _ => false

/-- The checker for a transaction with a lock time. A final transaction ignores its own lock time, so
it satisfies none. -/
def transaction (lockTime : Int) (isFinal : Bool) : Checker where
  checkSig sig key sighash :=
    match Signature.splitHashType sig with
    | none => false
    | some (der, _) => verifySignature der key sighash
  checkLockTime value :=
    decide (lockTime < lockTimeThreshold) == decide (value < lockTimeThreshold)
      && decide (value ≤ lockTime) && !isFinal

end Checker

end CoinScript
