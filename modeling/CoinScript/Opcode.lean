import CoinScript.Bytes

/-!
# Opcodes

The named opcode bytes. The bytes `01` to `4b` introduce direct pushes and have no name; any other
byte without a name is shown as `OP_UNKNOWN`.
-/

namespace CoinScript

inductive Opcode where
  -- push value
  | op0 | opPushData1 | opPushData2 | opPushData4 | op1Negate | opReserved | op1 | op2 | op3
  | op4 | op5 | op6 | op7 | op8 | op9 | op10 | op11 | op12 | op13 | op14 | op15 | op16
  -- control
  | opNop | opVer | opIf | opNotIf | opVerIf | opVerNotIf | opElse | opEndIf | opVerify
  | opReturn
  -- stack
  | opToAltStack | opFromAltStack | op2Drop | op2Dup | op3Dup | op2Over | op2Rot | op2Swap
  | opIfDup | opDepth | opDrop | opDup | opNip | opOver | opPick | opRoll | opRot | opSwap
  | opTuck
  -- splice
  | opCat | opSubstr | opLeft | opRight | opSize
  -- bit logic
  | opInvert | opAnd | opOr | opXor | opEqual | opEqualVerify | opReserved1 | opReserved2
  -- numeric
  | op1Add | op1Sub | op2Mul | op2Div | opNegate | opAbs | opNot | op0NotEqual | opAdd | opSub
  | opMul | opDiv | opMod | opLShift | opRShift | opBoolAnd | opBoolOr | opNumEqual
  | opNumEqualVerify | opNumNotEqual | opLessThan | opGreaterThan | opLessThanOrEqual
  | opGreaterThanOrEqual | opMin | opMax | opWithin
  -- crypto
  | opRipemd160 | opSha1 | opSha256 | opHash160 | opHash256 | opCodeSeparator | opCheckSig
  | opCheckSigVerify | opCheckMultiSig | opCheckMultiSigVerify
  -- expansion
  | opNop1 | opCheckLockTimeVerify | opCheckSequenceVerify | opNop4 | opNop5 | opNop6 | opNop7
  | opNop8 | opNop9 | opNop10 | opInvalidOpcode
  deriving DecidableEq, Repr

namespace Opcode

/-- The byte and the mnemonic of every opcode. -/
def spelling : Opcode → UInt8 × String
  | .op0 => (0x00, "OP_0")
  | .opPushData1 => (0x4c, "OP_PUSHDATA1")
  | .opPushData2 => (0x4d, "OP_PUSHDATA2")
  | .opPushData4 => (0x4e, "OP_PUSHDATA4")
  | .op1Negate => (0x4f, "OP_1NEGATE")
  | .opReserved => (0x50, "OP_RESERVED")
  | .op1 => (0x51, "OP_1")
  | .op2 => (0x52, "OP_2")
  | .op3 => (0x53, "OP_3")
  | .op4 => (0x54, "OP_4")
  | .op5 => (0x55, "OP_5")
  | .op6 => (0x56, "OP_6")
  | .op7 => (0x57, "OP_7")
  | .op8 => (0x58, "OP_8")
  | .op9 => (0x59, "OP_9")
  | .op10 => (0x5a, "OP_10")
  | .op11 => (0x5b, "OP_11")
  | .op12 => (0x5c, "OP_12")
  | .op13 => (0x5d, "OP_13")
  | .op14 => (0x5e, "OP_14")
  | .op15 => (0x5f, "OP_15")
  | .op16 => (0x60, "OP_16")
  | .opNop => (0x61, "OP_NOP")
  | .opVer => (0x62, "OP_VER")
  | .opIf => (0x63, "OP_IF")
  | .opNotIf => (0x64, "OP_NOTIF")
  | .opVerIf => (0x65, "OP_VERIF")
  | .opVerNotIf => (0x66, "OP_VERNOTIF")
  | .opElse => (0x67, "OP_ELSE")
  | .opEndIf => (0x68, "OP_ENDIF")
  | .opVerify => (0x69, "OP_VERIFY")
  | .opReturn => (0x6a, "OP_RETURN")
  | .opToAltStack => (0x6b, "OP_TOALTSTACK")
  | .opFromAltStack => (0x6c, "OP_FROMALTSTACK")
  | .op2Drop => (0x6d, "OP_2DROP")
  | .op2Dup => (0x6e, "OP_2DUP")
  | .op3Dup => (0x6f, "OP_3DUP")
  | .op2Over => (0x70, "OP_2OVER")
  | .op2Rot => (0x71, "OP_2ROT")
  | .op2Swap => (0x72, "OP_2SWAP")
  | .opIfDup => (0x73, "OP_IFDUP")
  | .opDepth => (0x74, "OP_DEPTH")
  | .opDrop => (0x75, "OP_DROP")
  | .opDup => (0x76, "OP_DUP")
  | .opNip => (0x77, "OP_NIP")
  | .opOver => (0x78, "OP_OVER")
  | .opPick => (0x79, "OP_PICK")
  | .opRoll => (0x7a, "OP_ROLL")
  | .opRot => (0x7b, "OP_ROT")
  | .opSwap => (0x7c, "OP_SWAP")
  | .opTuck => (0x7d, "OP_TUCK")
  | .opCat => (0x7e, "OP_CAT")
  | .opSubstr => (0x7f, "OP_SUBSTR")
  | .opLeft => (0x80, "OP_LEFT")
  | .opRight => (0x81, "OP_RIGHT")
  | .opSize => (0x82, "OP_SIZE")
  | .opInvert => (0x83, "OP_INVERT")
  | .opAnd => (0x84, "OP_AND")
  | .opOr => (0x85, "OP_OR")
  | .opXor => (0x86, "OP_XOR")
  | .opEqual => (0x87, "OP_EQUAL")
  | .opEqualVerify => (0x88, "OP_EQUALVERIFY")
  | .opReserved1 => (0x89, "OP_RESERVED1")
  | .opReserved2 => (0x8a, "OP_RESERVED2")
  | .op1Add => (0x8b, "OP_1ADD")
  | .op1Sub => (0x8c, "OP_1SUB")
  | .op2Mul => (0x8d, "OP_2MUL")
  | .op2Div => (0x8e, "OP_2DIV")
  | .opNegate => (0x8f, "OP_NEGATE")
  | .opAbs => (0x90, "OP_ABS")
  | .opNot => (0x91, "OP_NOT")
  | .op0NotEqual => (0x92, "OP_0NOTEQUAL")
  | .opAdd => (0x93, "OP_ADD")
  | .opSub => (0x94, "OP_SUB")
  | .opMul => (0x95, "OP_MUL")
  | .opDiv => (0x96, "OP_DIV")
  | .opMod => (0x97, "OP_MOD")
  | .opLShift => (0x98, "OP_LSHIFT")
  | .opRShift => (0x99, "OP_RSHIFT")
  | .opBoolAnd => (0x9a, "OP_BOOLAND")
  | .opBoolOr => (0x9b, "OP_BOOLOR")
  | .opNumEqual => (0x9c, "OP_NUMEQUAL")
  | .opNumEqualVerify => (0x9d, "OP_NUMEQUALVERIFY")
  | .opNumNotEqual => (0x9e, "OP_NUMNOTEQUAL")
  | .opLessThan => (0x9f, "OP_LESSTHAN")
  | .opGreaterThan => (0xa0, "OP_GREATERTHAN")
  | .opLessThanOrEqual => (0xa1, "OP_LESSTHANOREQUAL")
  | .opGreaterThanOrEqual => (0xa2, "OP_GREATERTHANOREQUAL")
  | .opMin => (0xa3, "OP_MIN")
  | .opMax => (0xa4, "OP_MAX")
  | .opWithin => (0xa5, "OP_WITHIN")
  | .opRipemd160 => (0xa6, "OP_RIPEMD160")
  | .opSha1 => (0xa7, "OP_SHA1")
  | .opSha256 => (0xa8, "OP_SHA256")
  | .opHash160 => (0xa9, "OP_HASH160")
  | .opHash256 => (0xaa, "OP_HASH256")
  | .opCodeSeparator => (0xab, "OP_CODESEPARATOR")
  | .opCheckSig => (0xac, "OP_CHECKSIG")
  | .opCheckSigVerify => (0xad, "OP_CHECKSIGVERIFY")
  | .opCheckMultiSig => (0xae, "OP_CHECKMULTISIG")
  | .opCheckMultiSigVerify => (0xaf, "OP_CHECKMULTISIGVERIFY")
  | .opNop1 => (0xb0, "OP_NOP1")
  | .opCheckLockTimeVerify => (0xb1, "OP_CHECKLOCKTIMEVERIFY")
  | .opCheckSequenceVerify => (0xb2, "OP_CHECKSEQUENCEVERIFY")
  | .opNop4 => (0xb3, "OP_NOP4")
  | .opNop5 => (0xb4, "OP_NOP5")
  | .opNop6 => (0xb5, "OP_NOP6")
  | .opNop7 => (0xb6, "OP_NOP7")
  | .opNop8 => (0xb7, "OP_NOP8")
  | .opNop9 => (0xb8, "OP_NOP9")
  | .opNop10 => (0xb9, "OP_NOP10")
  | .opInvalidOpcode => (0xff, "OP_INVALIDOPCODE")

def byte (op : Opcode) : UInt8 := op.spelling.1

def mnemonic (op : Opcode) : String := op.spelling.2

/-- All opcodes, in the order of their bytes. -/
def all : List Opcode :=
  [.op0, .opPushData1, .opPushData2, .opPushData4, .op1Negate, .opReserved, .op1, .op2, .op3,
   .op4, .op5, .op6, .op7, .op8, .op9, .op10, .op11, .op12, .op13, .op14, .op15, .op16, .opNop,
   .opVer, .opIf, .opNotIf, .opVerIf, .opVerNotIf, .opElse, .opEndIf, .opVerify, .opReturn,
   .opToAltStack, .opFromAltStack, .op2Drop, .op2Dup, .op3Dup, .op2Over, .op2Rot, .op2Swap,
   .opIfDup, .opDepth, .opDrop, .opDup, .opNip, .opOver, .opPick, .opRoll, .opRot, .opSwap,
   .opTuck, .opCat, .opSubstr, .opLeft, .opRight, .opSize, .opInvert, .opAnd, .opOr, .opXor,
   .opEqual, .opEqualVerify, .opReserved1, .opReserved2, .op1Add, .op1Sub, .op2Mul, .op2Div,
   .opNegate, .opAbs, .opNot, .op0NotEqual, .opAdd, .opSub, .opMul, .opDiv, .opMod, .opLShift,
   .opRShift, .opBoolAnd, .opBoolOr, .opNumEqual, .opNumEqualVerify, .opNumNotEqual,
   .opLessThan, .opGreaterThan, .opLessThanOrEqual, .opGreaterThanOrEqual, .opMin, .opMax,
   .opWithin, .opRipemd160, .opSha1, .opSha256, .opHash160, .opHash256, .opCodeSeparator,
   .opCheckSig, .opCheckSigVerify, .opCheckMultiSig, .opCheckMultiSigVerify, .opNop1,
   .opCheckLockTimeVerify, .opCheckSequenceVerify, .opNop4, .opNop5, .opNop6, .opNop7, .opNop8,
   .opNop9, .opNop10, .opInvalidOpcode]

/-- The opcode with the given byte, if it has a name. -/
def ofByte? (byte : UInt8) : Option Opcode := all.find? (·.byte == byte)

@[simp] theorem ofByte?_byte (op : Opcode) : ofByte? op.byte = some op := by cases op <;> decide +kernel

theorem byte_of_ofByte? {byte : UInt8} {op : Opcode} (h : ofByte? byte = some op) :
    op.byte = byte := by
  simpa using List.find?_some h

/-- Opcodes with the same byte are the same. -/
theorem byte_inj {op op' : Opcode} : op.byte = op'.byte ↔ op = op' := by
  constructor
  · intro h
    have hsame := ofByte?_byte op
    rw [h, ofByte?_byte] at hsame
    exact (Option.some.inj hsame).symm
  · rintro rfl
    rfl

-- ---------------------------------------------------------------------------
-- Classes of opcodes
-- ---------------------------------------------------------------------------

/-- Disabled opcodes fail a script wherever they stand, also in a branch that does not run. -/
def isDisabled : Opcode → Bool
  | .opCat | .opSubstr | .opLeft | .opRight
  | .opInvert | .opAnd | .opOr | .opXor
  | .op2Mul | .op2Div | .opMul | .opDiv | .opMod | .opLShift | .opRShift => true
  | _ => false

/-- The number pushed by `OP_1` to `OP_16`. -/
def smallInt? (op : Opcode) : Option Nat :=
  let byte := op.byte.toNat
  if op1.byte.toNat ≤ byte ∧ byte ≤ op16.byte.toNat then some (byte - op1.byte.toNat + 1) else none

/-- The opcode among `OP_1` to `OP_16` that pushes the given number. -/
def ofSmallInt? (n : Nat) : Option Opcode := all.find? (·.smallInt? == some n)

/-- The mnemonic of a byte. -/
def mnemonicOf (byte : UInt8) : String :=
  match ofByte? byte with
  | some op => op.mnemonic
  | none => "OP_UNKNOWN"

/-- Whether a byte is that of a disabled opcode. -/
def isDisabledByte (byte : UInt8) : Bool := (ofByte? byte).any isDisabled

/-- Whether a byte counts against the budget of operations: all those above `OP_16`. -/
def isCounted (byte : UInt8) : Bool := op16.byte < byte

end Opcode

end CoinScript
