import CoinScript.ResultCode
import CoinScript.Script.Codec
import CoinScript.ScriptNum
import CoinScript.Signature.Encoding
import CoinScript.Stack

/-!
# Failures of an evaluation

Everything that makes an evaluation fail, and the result code that is reported for it.
-/

namespace CoinScript

inductive EvalError where
  | evalFalse
  | opReturn
  | scriptSize
  | pushSize
  | opCount
  | stackSize
  | sigCount
  | pubKeyCount
  /-- The check that the opcode `byte` makes did not succeed. -/
  | verify (byte : UInt8)
  | unknownOpcode (byte : UInt8)
  | disabledOpcode (byte : UInt8)
  | invalidStackOperation (error : Stack.Error)
  | invalidAltStackOperation
  | unbalancedConditional
  | negativeLockTime
  | unsatisfiedLockTime
  | minimalData
  | sigNullDummy
  | pubKeyType
  | discourageUpgradableNops
  | num (error : ScriptNum.Error)
  | signatureEncoding (error : Signature.Error)
  | scriptHashMismatch
  | witnessProgramMismatch
  | witnessProgramWitnessEmpty
  | injectedScript (error : Script.Error)
  deriving DecidableEq, Repr

namespace EvalError

/-- A stack that is full breaks the limit on stacks; any other failure of a stack is an invalid
operation. -/
def ofStack : Stack.Error → EvalError
  | .full _ => .stackSize
  | error => .invalidStackOperation error

def message : EvalError → String
  | .evalFalse => "script evaluated without error but finished with a false/empty top stack element"
  | .opReturn => "OP_RETURN encountered"
  | .scriptSize => "too many pending commands"
  | .pushSize => "push size exceeded maximum"
  | .opCount => "operation count exceeded maximum"
  | .stackSize => "stack size exceeded maximum"
  | .sigCount => "signature count exceeded maximum"
  | .pubKeyCount => "public key count exceeded maximum"
  | .verify byte => Opcode.mnemonicOf byte ++ " failed"
  | .unknownOpcode byte =>
    "no handler for " ++ Opcode.mnemonicOf byte ++ " (" ++ Hex.byteLiteral byte ++ ")"
  | .disabledOpcode byte => "disabled opcode " ++ Opcode.mnemonicOf byte
  | .invalidStackOperation error => "invalid stack operation: " ++ error.message
  | .invalidAltStackOperation => "invalid altstack operation"
  | .unbalancedConditional => "unbalanced conditional"
  | .negativeLockTime => "negative locktime"
  | .unsatisfiedLockTime => "locktime requirement not satisfied"
  | .minimalData => "data push larger than necessary"
  | .sigNullDummy => "dummy CHECKMULTISIG argument must be zero"
  | .pubKeyType => "public key is neither compressed or uncompressed"
  | .discourageUpgradableNops => "NOPx reserved for soft-fork upgrades"
  | .num error => "script number error: " ++ error.message
  | .signatureEncoding error => error.message
  | .scriptHashMismatch => "redeem script doesn't match the committed hash"
  | .witnessProgramMismatch => "witness program hash mismatch"
  | .witnessProgramWitnessEmpty => "witness program was passed an empty witness"
  | .injectedScript error => "couldn't parse an injected script: " ++ error.message

/-- The code for a failed check, which depends on the opcode that made it. -/
def verifyCode (byte : UInt8) : ResultCode :=
  match Opcode.ofByte? byte with
  | some .opEqualVerify => .equalVerify
  | some .opNumEqualVerify => .numEqualVerify
  | some .opCheckSigVerify => .checkSigVerify
  | some .opCheckMultiSigVerify => .checkMultisigVerify
  | _ => .verify

/-- The result code of a failure. -/
def code : EvalError → ResultCode
  | .evalFalse | .scriptHashMismatch => .evalFalse
  | .opReturn => .opReturn
  | .scriptSize => .scriptSize
  | .pushSize => .pushSize
  | .opCount => .opCount
  | .stackSize => .stackSize
  | .sigCount => .sigCount
  | .pubKeyCount => .pubKeyCount
  | .verify byte => verifyCode byte
  | .unknownOpcode _ => .badOpcode
  | .disabledOpcode _ => .disabledOpcode
  | .invalidStackOperation _ => .invalidStackOperation
  | .invalidAltStackOperation => .invalidAltstackOperation
  | .unbalancedConditional => .unbalancedConditional
  | .negativeLockTime => .negativeLockTime
  | .unsatisfiedLockTime => .unsatisfiedLockTime
  | .minimalData => .minimalData
  | .sigNullDummy => .sigNullDummy
  | .pubKeyType => .pubKeyType
  | .discourageUpgradableNops => .discourageUpgradableNops
  | .num _ => .scriptNum
  | .signatureEncoding (.hashType _) => .sigHashType
  | .signatureEncoding (.der _) => .sigDer
  | .signatureEncoding .highS => .sigHighS
  | .signatureEncoding .pubKeyType => .pubKeyType
  | .witnessProgramMismatch => .witnessProgramMismatch
  | .witnessProgramWitnessEmpty => .witnessProgramWitnessEmpty
  | .injectedScript _ => .unknownError

end EvalError

end CoinScript
