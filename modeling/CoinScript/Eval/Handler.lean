import CoinScript.Eval.Action.Shuffle
import CoinScript.Eval.Action.Signature

/-!
# Handlers and opcode tables

What is done to execute an opcode, and which opcode is executed how. Flow control, disabled opcodes
and the count of operations come before and are no handler's business.
-/

namespace CoinScript

/-- A way to execute opcodes. -/
inductive Handler where
  | pushEmpty
  | pushConstant
  | nop
  | upgradableNop
  | checkLockTime
  | verifyTop
  | abort
  | toAltStack
  | fromAltStack
  | drop
  | drop2
  | dup
  | dup2
  | dup3
  | over2
  | rot2
  | swap2
  | ifDup
  | pushDepth
  | nip
  | overTop
  | pickRoll
  | rot
  | swapTop
  | tuck
  | pushSize
  | equal
  | unaryNum
  | binaryNum
  | within
  | hash
  | checkSig
  | checkMultiSig
  deriving DecidableEq, Repr

/-- Executes the opcode `byte`. -/
def Handler.run (env : Env) (byte : UInt8) : Handler → Action Unit
  | .pushEmpty => Action.pushEmpty
  | .pushConstant => Action.pushConstant byte
  | .nop => pure ()
  | .upgradableNop => Action.upgradableNop env
  | .checkLockTime => Action.checkLockTime env
  | .verifyTop => Action.verifyTop byte
  | .abort => throw .opReturn
  | .toAltStack => Action.toAltStack
  | .fromAltStack => Action.fromAltStack
  | .drop => Action.drop
  | .drop2 => Action.drop2
  | .dup => Action.dup
  | .dup2 => Action.dup2
  | .dup3 => Action.dup3
  | .over2 => Action.over2
  | .rot2 => Action.rot2
  | .swap2 => Action.swap2
  | .ifDup => Action.ifDup
  | .pushDepth => Action.pushDepth
  | .nip => Action.nip
  | .overTop => Action.overTop
  | .pickRoll => Action.pickRoll env byte
  | .rot => Action.rot
  | .swapTop => Action.swapTop
  | .tuck => Action.tuck
  | .pushSize => Action.pushSize
  | .equal => Action.equal byte
  | .unaryNum => Action.unaryNum env byte
  | .binaryNum => Action.binaryNum env byte
  | .within => Action.within env
  | .hash => Action.hash byte
  | .checkSig => Action.checkSig env byte
  | .checkMultiSig => Action.checkMultiSig env byte

/-- The handler of every enabled opcode. -/
def Opcode.handler? : Opcode → Option Handler
  | .op0 => some .pushEmpty
  | .op1Negate | .op1 | .op2 | .op3 | .op4 | .op5 | .op6 | .op7 | .op8 | .op9 | .op10 | .op11
  | .op12 | .op13 | .op14 | .op15 | .op16 => some .pushConstant
  | .opNop | .opCodeSeparator => some .nop
  | .opNop1 | .opCheckSequenceVerify | .opNop4 | .opNop5 | .opNop6 | .opNop7 | .opNop8 | .opNop9
  | .opNop10 => some .upgradableNop
  | .opCheckLockTimeVerify => some .checkLockTime
  | .opVerify => some .verifyTop
  | .opReturn => some .abort
  | .opToAltStack => some .toAltStack
  | .opFromAltStack => some .fromAltStack
  | .opDrop => some .drop
  | .op2Drop => some .drop2
  | .opDup => some .dup
  | .op2Dup => some .dup2
  | .op3Dup => some .dup3
  | .op2Over => some .over2
  | .op2Rot => some .rot2
  | .op2Swap => some .swap2
  | .opIfDup => some .ifDup
  | .opDepth => some .pushDepth
  | .opNip => some .nip
  | .opOver => some .overTop
  | .opPick | .opRoll => some .pickRoll
  | .opRot => some .rot
  | .opSwap => some .swapTop
  | .opTuck => some .tuck
  | .opSize => some .pushSize
  | .opEqual | .opEqualVerify => some .equal
  | .op1Add | .op1Sub | .opNegate | .opAbs | .opNot | .op0NotEqual => some .unaryNum
  | .opAdd | .opSub | .opBoolAnd | .opBoolOr | .opNumEqual | .opNumEqualVerify | .opNumNotEqual
  | .opLessThan | .opGreaterThan | .opLessThanOrEqual | .opGreaterThanOrEqual | .opMin
  | .opMax => some .binaryNum
  | .opWithin => some .within
  | .opRipemd160 | .opSha1 | .opSha256 | .opHash160 | .opHash256 => some .hash
  | .opCheckSig | .opCheckSigVerify => some .checkSig
  | .opCheckMultiSig | .opCheckMultiSigVerify => some .checkMultiSig
  | _ => none

-- ---------------------------------------------------------------------------
-- What tables can hold
-- ---------------------------------------------------------------------------

/-- Things that say what is done to execute a byte, and so can be held by a table. -/
class Executable (η : Type) where
  run (env : Env) (byte : UInt8) (handler : η) : Action Unit

/-- The questions asked before make no difference to what is done. -/
class BlindExecutable (η : Type) [Executable η] : Prop where
  isBlind_run (env : Env) (byte : UInt8) (handler : η) : (Executable.run env byte handler).IsBlind

@[default_instance]
instance : Executable Handler where
  run env byte handler := handler.run env byte

@[simp] theorem Handler.executable_run (env : Env) (byte : UInt8) (handler : Handler) :
    Executable.run env byte handler = handler.run env byte := rfl

/-- Any action that does not depend on the questions asked before. It may do what no handler does, such
as giving operations back. -/
structure Routine where
  run : Env → UInt8 → Action Unit
  isBlind : ∀ env byte, (run env byte).IsBlind

instance : Executable Routine where
  run env byte routine := routine.run env byte

instance : BlindExecutable Routine where
  isBlind_run env byte routine := routine.isBlind env byte

/-- What a handler does, as a routine. -/
def Routine.of {η : Type} [Executable η] [BlindExecutable η] (handler : η) : Routine where
  run env byte := Executable.run env byte handler
  isBlind env byte := BlindExecutable.isBlind_run env byte handler

-- ---------------------------------------------------------------------------
-- Tables
-- ---------------------------------------------------------------------------

/-- Which byte is executed how; a byte without a handler is unknown. -/
structure OpcodeTable (η : Type := Handler) where
  handler? : UInt8 → Option η

namespace OpcodeTable

variable {η : Type}

/-- The table that knows no opcode. -/
def empty : OpcodeTable η := ⟨fun _ => none⟩

/-- The table of the enabled opcodes. -/
def standard : OpcodeTable := ⟨fun byte => (Opcode.ofByte? byte).bind Opcode.handler?⟩

theorem standard_byte (op : Opcode) : standard.handler? op.byte = op.handler? := by
  simp only [standard, Opcode.ofByte?_byte, Option.bind_some]

/-- Executes one byte with the given handler. -/
def bind (table : OpcodeTable η) (byte : UInt8) (handler : η) : OpcodeTable η :=
  ⟨fun b => if b = byte then some handler else table.handler? b⟩

/-- Forgets one byte. -/
def unbind (table : OpcodeTable η) (byte : UInt8) : OpcodeTable η :=
  ⟨fun b => if b = byte then none else table.handler? b⟩

/-- Executes one byte as the standard table executes another. -/
def bindAs (table : OpcodeTable) (byte source : UInt8) : OpcodeTable :=
  match standard.handler? source with
  | some handler => table.bind byte handler
  | none => table

/-- The same table, which other routines can be put into. -/
def routines [Executable η] [BlindExecutable η] (table : OpcodeTable η) : OpcodeTable Routine :=
  ⟨fun byte => (table.handler? byte).map .of⟩

/-- The bytes with a handler, in order. -/
def handled (table : OpcodeTable η) : List UInt8 :=
  ((List.range 256).map UInt8.ofNat).filter fun byte => (table.handler? byte).isSome

def describe (table : OpcodeTable η) : String :=
  "OpcodeTable \x7b handled: " ++ toString table.handled.length ++ " \x7d"

end OpcodeTable

end CoinScript
