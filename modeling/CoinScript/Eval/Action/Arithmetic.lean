import CoinScript.Eval.Action

/-!
# Comparisons, arithmetic and hashes

One action serves several opcodes: the byte that is executed tells what it computes. An action that is
run for a byte that means nothing to it fails once it has taken its operands.
-/

namespace CoinScript.Action

/-- Leaves the outcome of a check on the stack, or fails for the opcodes that only verify. -/
def concludeCheck (verifying : Opcode) (byte : UInt8) (success : Bool) : Action Unit :=
  if byte = verifying.byte then verify byte success else pushBool success

/-- Diagram `(x1 x2 -- bool)`: whether the elements are the same. -/
def equal (byte : UInt8) : Action Unit := do
  require 2
  let x2 ← pop
  let x1 ← pop
  concludeCheck .opEqualVerify byte (x1 = x2)

-- ---------------------------------------------------------------------------
-- Numbers
-- ---------------------------------------------------------------------------

/-- One for true and zero for false. -/
def ofCondition (p : Prop) [Decidable p] : Int := if p then 1 else 0

theorem natAbs_ofCondition (p : Prop) [Decidable p] : (ofCondition p).natAbs ≤ 1 := by
  unfold ofCondition
  split <;> decide

/-- What an opcode with one operand computes. -/
def unaryResult? (n : Int) : Opcode → Option Int
  | .op1Add => some (n + 1)
  | .op1Sub => some (n - 1)
  | .opNegate => some (-n)
  | .opAbs => some n.natAbs
  | .opNot => some (ofCondition (n = 0))
  | .op0NotEqual => some (ofCondition (n ≠ 0))
  | _ => none

/-- What an opcode with two operands computes. -/
def binaryResult? (a b : Int) : Opcode → Option Int
  | .opAdd => some (a + b)
  | .opSub => some (a - b)
  | .opBoolAnd => some (ofCondition (a ≠ 0 ∧ b ≠ 0))
  | .opBoolOr => some (ofCondition (a ≠ 0 ∨ b ≠ 0))
  | .opNumEqual | .opNumEqualVerify => some (ofCondition (a = b))
  | .opNumNotEqual => some (ofCondition (a ≠ b))
  | .opLessThan => some (ofCondition (a < b))
  | .opGreaterThan => some (ofCondition (a > b))
  | .opLessThanOrEqual => some (ofCondition (a ≤ b))
  | .opGreaterThanOrEqual => some (ofCondition (a ≥ b))
  | .opMin => some (min a b)
  | .opMax => some (max a b)
  | _ => none

/-- Diagram `(n -- result)` -/
def unaryNum (env : Env) (byte : UInt8) : Action Unit := do
  let n ← popNum env
  match (Opcode.ofByte? byte).bind (unaryResult? n) with
  | some result => pushNum result
  | none => throw (.unknownOpcode byte)

/-- Diagram `(a b -- result)` -/
def binaryNum (env : Env) (byte : UInt8) : Action Unit := do
  require 2
  let b ← popNum env
  let a ← popNum env
  match (Opcode.ofByte? byte).bind (binaryResult? a b) with
  | some result =>
    if byte = Opcode.opNumEqualVerify.byte then verify byte (result ≠ 0) else pushNum result
  | none => throw (.unknownOpcode byte)

/-- Diagram `(x low high -- bool)`: whether the number is at least `low` and below `high`. -/
def within (env : Env) : Action Unit := do
  require 3
  let high ← popNum env
  let low ← popNum env
  let x ← popNum env
  pushBool (low ≤ x ∧ x < high)

-- ---------------------------------------------------------------------------
-- Hashes
-- ---------------------------------------------------------------------------

/-- The digest that an opcode computes. -/
def hashResult? (data : Bytes) : Opcode → Option Bytes
  | .opRipemd160 => some (ripemd160 data).bytes
  | .opSha1 => some (sha1 data).bytes
  | .opSha256 => some (sha256 data).bytes
  | .opHash160 => some (hash160 data).bytes
  | .opHash256 => some (hash256 data).bytes
  | _ => none

/-- Diagram `(x -- digest)` -/
def hash (byte : UInt8) : Action Unit := do
  let data ← pop
  match (Opcode.ofByte? byte).bind (hashResult? data) with
  | some digest => push digest
  | none => throw (.unknownOpcode byte)

end CoinScript.Action
