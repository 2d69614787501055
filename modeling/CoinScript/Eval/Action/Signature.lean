import CoinScript.Eval.Action.Arithmetic

/-!
# Signature checks
-/

namespace CoinScript.Action

/-- Checks a signature under a key: first how both are encoded, then what the checker says. -/
def checkSignature (env : Env) (sig key : Bytes) : Action Bool := do
  orFail .signatureEncoding (Signature.checkEncoding env.flags sig)
  orFail (fun _ => .pubKeyType) (Signature.checkKeyEncoding env.flags key)
  askSignature env sig key

/-- Diagram `(sig key -- bool)` -/
def checkSig (env : Env) (byte : UInt8) : Action Unit := do
  require 2
  let key ← pop
  let sig ← pop
  let success ← checkSignature env sig key
  concludeCheck .opCheckSigVerify byte success

-- ---------------------------------------------------------------------------
-- Several signatures
-- ---------------------------------------------------------------------------

/-- The most keys that one opcode can take. -/
def maxMultiSigKeys : Nat := 20

/-- Tries keys until one verifies the signature, and returns those not tried. -/
def findKey (env : Env) (sig : Bytes) : (keys : List Bytes) → Action (Option (List Bytes))
  | [] => pure none
  | key :: keys => do
    if ← checkSignature env sig key then pure (some keys) else findKey env sig keys

/-- Whether every signature is verified by one of the keys, the keys being used in order and each at
most once. -/
def matchKeys (env : Env) : (sigs keys : List Bytes) → Action Bool
  | [], _ => pure true
  | sig :: sigs, keys => do
    match ← findKey env sig keys with
    | some keys => matchKeys env sigs keys
    | none => pure false

/-- Takes the number of keys and the keys off the stack, in the order in which they were pushed.
Every key uses up an operation. -/
def popKeys (env : Env) : Action (List Bytes) := do
  let count ← popNum env
  if count < 0 ∨ maxMultiSigKeys < count then throw .pubKeyCount
  else do
    charge env.limits count.toNat
    require count.toNat
    let keys ← popMany count.toNat
    return keys.reverse

/-- Takes the number of signatures and the signatures off the stack, in the order in which they were
pushed. There cannot be more signatures than keys. -/
def popSigs (env : Env) (keyCount : Nat) : Action (List Bytes) := do
  let count ← popNum env
  if count < 0 ∨ keyCount < count then throw .sigCount
  else do
    require count.toNat
    let sigs ← popMany count.toNat
    return sigs.reverse

/-- Takes the element below the signatures off the stack, which serves no purpose. -/
def popDummy (env : Env) : Action Unit := do
  let dummy ← pop
  if env.flags.nullDummy ∧ dummy ≠ [] then throw .sigNullDummy else pure ()

/-- Diagram `(dummy sig1 ... sigm m key1 ... keyn n -- bool)` -/
def checkMultiSig (env : Env) (byte : UInt8) : Action Unit := do
  let keys ← popKeys env
  let sigs ← popSigs env keys.length
  popDummy env
  let success ← matchKeys env sigs keys
  concludeCheck .opCheckMultiSigVerify byte success

end CoinScript.Action
