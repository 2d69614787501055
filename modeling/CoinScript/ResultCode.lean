import CoinScript.Log

/-!
# Result codes

What an evaluation reports, and the latch it reports into: the first code recorded stays until the
latch is reset.
-/

namespace CoinScript

/-- The outcome of an evaluation: `ok`, or the rule that was broken. -/
inductive ResultCode where
  | ok
  | unknownError
  | evalFalse
  | opReturn
  | scriptSize
  | pushSize
  | opCount
  | stackSize
  | sigCount
  | pubKeyCount
  | verify
  | equalVerify
  | checkMultisigVerify
  | checkSigVerify
  | numEqualVerify
  | badOpcode
  | disabledOpcode
  | invalidStackOperation
  | invalidAltstackOperation
  | unbalancedConditional
  | negativeLockTime
  | unsatisfiedLockTime
  | sigHashType
  | sigDer
  | minimalData
  | sigPushOnly
  | sigHighS
  | sigNullDummy
  | pubKeyType
  | discourageUpgradableNops
  | witnessProgramMismatch
  | witnessProgramWitnessEmpty
  | scriptNum
  deriving DecidableEq, Repr

namespace ResultCode

/-- The name and the text of every code. -/
def spelling : ResultCode → String × String
  | .ok => ("Ok", "Ok")
  | .unknownError => ("UnknownError", "unknown error")
  | .evalFalse => ("EvalFalse", "script evaluation failed")
  | .opReturn => ("OpReturn", "OP_RETURN encountered")
  | .scriptSize => ("ScriptSize", "Script size exceeded maximum")
  | .pushSize => ("PushSize", "push size exceeded maximum")
  | .opCount => ("OpCount", "operation count exceeded maximum")
  | .stackSize => ("StackSize", "stack size exceeded maximum")
  | .sigCount => ("SigCount", "signature count exceeded maximum")
  | .pubKeyCount => ("PubKeyCount", "public key count exceeded maximum")
  | .verify => ("Verify", "verify operation failed")
  | .equalVerify => ("EqualVerify", "equal verify operation failed")
  | .checkMultisigVerify => ("CheckMultisigVerify", "check multisig verify operation failed")
  | .checkSigVerify => ("CheckSigVerify", "check sig verify operation failed")
  | .numEqualVerify => ("NumEqualVerify", "num equal verify operation failed")
  | .badOpcode => ("BadOpcode", "bad opcode encountered")
  | .disabledOpcode => ("DisabledOpcode", "disabled opcode encountered")
  | .invalidStackOperation => ("InvalidStackOperation", "invalid stack operation encountered")
  | .invalidAltstackOperation => ("InvalidAltstackOperation", "invalid altstack operation encountered")
  | .unbalancedConditional => ("UnbalancedConditional", "unbalanced conditional encountered")
  | .negativeLockTime => ("NegativeLockTime", "negative lock time encountered")
  | .unsatisfiedLockTime => ("UnsatisfiedLockTime", "unsatisfied locktime condition")
  | .sigHashType => ("SigHashType", "signature hash type error")
  | .sigDer => ("SigDER", "signature DER encoding error")
  | .minimalData => ("MinimalData", "minimal data requirement not met")
  | .sigPushOnly => ("SigPushOnly", "signature push only requirement not met")
  | .sigHighS => ("SigHighS", "signature s value is too high")
  | .sigNullDummy => ("SigNullDummy", "signature null dummy error")
  | .pubKeyType => ("PubKeyType", "public key type error")
  | .discourageUpgradableNops => ("DiscourageUpgradableNOPs", "discouraged upgradable NOPs encountered")
  | .witnessProgramMismatch => ("WitnessProgramMismatch", "witness program hash mismatch")
  | .witnessProgramWitnessEmpty => ("WitnessProgramWitnessEmpty", "witness program was passed an empty witness")
  | .scriptNum => ("ScriptNum", "script number error")

def name (code : ResultCode) : String := code.spelling.1

def message (code : ResultCode) : String := code.spelling.2

/-- All codes, in the order of their numbers. -/
def all : List ResultCode :=
  [.ok, .unknownError, .evalFalse, .opReturn, .scriptSize, .pushSize, .opCount, .stackSize,
   .sigCount, .pubKeyCount, .verify, .equalVerify, .checkMultisigVerify, .checkSigVerify,
   .numEqualVerify, .badOpcode, .disabledOpcode, .invalidStackOperation,
   .invalidAltstackOperation, .unbalancedConditional, .negativeLockTime, .unsatisfiedLockTime,
   .sigHashType, .sigDer, .minimalData, .sigPushOnly, .sigHighS, .sigNullDummy, .pubKeyType,
   .discourageUpgradableNops, .witnessProgramMismatch, .witnessProgramWitnessEmpty, .scriptNum]

/-- The number of a code: its place among all of them, counted from zero. -/
def number (code : ResultCode) : Nat := all.idxOf code

def ofName? (name : String) : Option ResultCode := all.find? (·.name = name)

/-- The code of a result: `ok`, or that of the failure. -/
def ofResult : Except ResultCode Unit → ResultCode
  | .ok _ => .ok
  | .error code => code

end ResultCode

/-- Holds the code of one evaluation. -/
structure Latch where
  code? : Option ResultCode := none
  deriving DecidableEq, Repr

namespace Latch

/-- Records a code unless there is one already; also tells whether it did. -/
def record (latch : Latch) (code : ResultCode) : Bool × Latch :=
  match latch.code? with
  | none => (true, ⟨some code⟩)
  | some _ => (false, latch)

/-- The log of recording a code: a warning if the code is ignored. -/
def recordLog (latch : Latch) (code : ResultCode) : List Log.Entry :=
  match latch.code? with
  | none => []
  | some existing =>
    [⟨.warn, "error sink already latched",
      [("existing", .text existing.name), ("ignored", .text code.name)]⟩]

def isOk (latch : Latch) : Bool := latch.code? = some .ok

def isSet (latch : Latch) : Bool := latch.code?.isSome

/-- Forgets the code. -/
def reset (_ : Latch) : Latch := {}

end Latch

end CoinScript
