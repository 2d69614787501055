import CoinScript.Eval.Action

/-!
# Constants, no-operations and stack shuffles

The diagrams show the stack before and after, with the top at the right.
-/

namespace CoinScript.Action

-- ---------------------------------------------------------------------------
-- Constants
-- ---------------------------------------------------------------------------

/-- Diagram `( -- empty)` -/
def pushEmpty : Action Unit := push []

/-- The number that the opcode `byte` stands for, or zero if it stands for none. -/
def constantOf (byte : UInt8) : Int :=
  match Opcode.ofByte? byte with
  | some .op1Negate => -1
  | some op => (op.smallInt?.getD 0 : Nat)
  | none => 0

/-- Diagram `( -- n)` -/
def pushConstant (byte : UInt8) : Action Unit := pushNum (constantOf byte)

-- ---------------------------------------------------------------------------
-- Control
-- ---------------------------------------------------------------------------

/-- Does nothing, unless no-operations kept for upgrades are discouraged. -/
def upgradableNop (env : Env) : Action Unit :=
  if env.flags.discourageUpgradableNops then throw .discourageUpgradableNops else pure ()

/-- Compares the lock time on top, which stays there, with that of the transaction. -/
def checkLockTime (env : Env) : Action Unit :=
  if env.flags.checkLockTimeVerify then do
    let lockTime ← readNum env.flags ScriptNum.lockTimeSize (← peek)
    if lockTime < 0 then throw .negativeLockTime
    else if ← askLockTime env lockTime then pure ()
    else throw .unsatisfiedLockTime
  else upgradableNop env

/-- Diagram `(true -- )`; an element that is not true stays on the stack. -/
def verifyTop (byte : UInt8) : Action Unit := do
  verify byte (Element.isTrue (← peek))
  let _ ← pop

-- ---------------------------------------------------------------------------
-- Shuffles
-- ---------------------------------------------------------------------------

/-- Moves the top to the alternative stack. -/
def toAltStack : Action Unit := do altPush (← pop)

/-- Moves the top of the alternative stack back. -/
def fromAltStack : Action Unit := do push (← altPop)

/-- Diagram `(x -- )` -/
def drop : Action Unit := do let _ ← pop

/-- Diagram `(x1 x2 -- )` -/
def drop2 : Action Unit := do
  require 2
  let _ ← pop
  let _ ← pop

/-- Diagram `(x -- x x)` -/
def dup : Action Unit := do push (← peekNth 1)

/-- Diagram `(x1 x2 -- x1 x2 x1 x2)` -/
def dup2 : Action Unit := do
  require 2
  let x1 ← peekNth 2
  let x2 ← peekNth 1
  push x1
  push x2

/-- Diagram `(x1 x2 x3 -- x1 x2 x3 x1 x2 x3)` -/
def dup3 : Action Unit := do
  require 3
  let x1 ← peekNth 3
  let x2 ← peekNth 2
  let x3 ← peekNth 1
  push x1
  push x2
  push x3

/-- Diagram `(x1 x2 x3 x4 -- x1 x2 x3 x4 x1 x2)` -/
def over2 : Action Unit := do
  require 4
  let x1 ← peekNth 4
  let x2 ← peekNth 3
  push x1
  push x2

/-- Diagram `(x1 x2 x3 x4 x5 x6 -- x3 x4 x5 x6 x1 x2)` -/
def rot2 : Action Unit := do
  require 6
  let x1 ← removeNth 6
  let x2 ← removeNth 5
  push x1
  push x2

/-- Diagram `(x1 x2 x3 x4 -- x3 x4 x1 x2)` -/
def swap2 : Action Unit := do
  require 4
  swap 4 2
  swap 3 1

/-- Diagram `(x -- x)`, or `(x -- x x)` if the element is true. -/
def ifDup : Action Unit := do
  let top ← peekNth 1
  if Element.isTrue top then push top else pure ()

/-- Diagram `( -- n)`, the number of elements before. -/
def pushDepth : Action Unit := do pushNum (← depth : Nat)

/-- Diagram `(x1 x2 -- x2)` -/
def nip : Action Unit := do
  require 2
  let _ ← removeNth 2

/-- Diagram `(x1 x2 -- x1 x2 x1)` -/
def overTop : Action Unit := do push (← peekNth 2)

/-- Diagram `(xn ... x0 n -- xn ... x0 xn)`, or `(xn ... x0 n -- xn-1 ... x0 xn)` for `OP_ROLL`. -/
def pickRoll (env : Env) (byte : UInt8) : Action Unit := do
  require 2
  let n ← popNum env
  let len ← depth
  if n < 0 ∨ len ≤ n.toNat then throw (.invalidStackOperation (.notFound n.toNat len))
  else if byte = Opcode.opRoll.byte then push (← removeNth (n.toNat + 1))
  else push (← peekNth (n.toNat + 1))

/-- Diagram `(x1 x2 x3 -- x2 x3 x1)` -/
def rot : Action Unit := do
  require 3
  push (← removeNth 3)

/-- Diagram `(x1 x2 -- x2 x1)` -/
def swapTop : Action Unit := do
  require 2
  swap 1 2

/-- Diagram `(x1 x2 -- x2 x1 x2)` -/
def tuck : Action Unit := do
  require 2
  let x2 ← peekNth 1
  insertNth 3 x2

/-- Diagram `(x -- x n)`, the number of bytes of the element. -/
def pushSize : Action Unit := do pushNum ((← peek).length : Nat)

end CoinScript.Action
