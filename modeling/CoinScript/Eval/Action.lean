import CoinScript.Checker
import CoinScript.Element
import CoinScript.Eval.Error

/-!
# Actions on the stacks

What opcodes can do: read and change the two stacks, use up operations, and ask the checker. An
action that fails keeps what it changed before.
-/

namespace CoinScript

/-- What stays fixed while a script runs. -/
structure Env where
  flags : Flags := Flags.standard
  limits : Limits := {}
  checker : Checker := Checker.rejecting
  sighash : Digest 32

/-- What opcodes change: the stacks, the operations used, and the questions asked of the checker, the
latest first. -/
structure Frame where
  stack : Stack Bytes
  altStack : Stack Bytes
  opCount : Nat := 0
  asked : List Query := []
  deriving DecidableEq, Repr

namespace Frame

/-- Empty stacks of the size that the limits allow. -/
def new (limits : Limits) : Frame := ⟨Stack.new limits.maxStackSize, Stack.new limits.maxStackSize, 0, []⟩

/-- The questions asked of the checker, in order. -/
def queries (frame : Frame) : List Query := frame.asked.reverse

/-- The number of elements on both stacks. -/
def size (frame : Frame) : Nat := frame.stack.length + frame.altStack.length

end Frame

/-- A change of a frame that can fail. -/
abbrev Action := EStateM EvalError Frame

namespace Action

-- ---------------------------------------------------------------------------
-- The main stack
-- ---------------------------------------------------------------------------

/-- Looks at the main stack. -/
def look {α : Type} (f : Stack Bytes → Except Stack.Error α) : Action α := fun frame =>
  match f frame.stack with
  | .ok a => .ok a frame
  | .error e => .error (.ofStack e) frame

/-- Takes something off the main stack. -/
def take {α : Type} (f : Stack Bytes → Except Stack.Error (α × Stack Bytes)) : Action α := fun frame =>
  match f frame.stack with
  | .ok (a, stack) => .ok a { frame with stack }
  | .error e => .error (.ofStack e) frame

/-- Changes the main stack. -/
def alter (f : Stack Bytes → Except Stack.Error (Stack Bytes)) : Action Unit :=
  take fun stack => (f stack).map fun stack => ((), stack)

/-- Fails unless the main stack has at least `n` elements. -/
def require (n : Nat) : Action Unit :=
  look fun stack => if stack.length < n then .error (.notFound n stack.length) else .ok ()

def pop : Action Bytes := take Stack.pop

def push (element : Bytes) : Action Unit := alter (Stack.push element)

def peek : Action Bytes := look Stack.peek

def peekNth (n : Nat) : Action Bytes := look (Stack.peekNth n)

def removeNth (n : Nat) : Action Bytes := take (Stack.removeNth n)

def insertNth (n : Nat) (element : Bytes) : Action Unit := alter (Stack.insertNth n element)

def swap (m n : Nat) : Action Unit := alter (Stack.swap m n)

/-- The number of elements on the main stack. -/
def depth : Action Nat := look fun stack => .ok stack.length

/-- Takes `n` elements off the top, the topmost first. -/
def popMany : Nat → Action (List Bytes)
  | 0 => pure []
  | n + 1 => do
    let first ← pop
    let rest ← popMany n
    return first :: rest

-- ---------------------------------------------------------------------------
-- Truth values and numbers
-- ---------------------------------------------------------------------------

def pushBool (b : Bool) : Action Unit := push (Element.ofBool b)

def pushNum (n : Int) : Action Unit := push (ScriptNum.encode n)

/-- Passes on the value of a computation that can fail. -/
def orFail {ε α : Type} (toError : ε → EvalError) : Except ε α → Action α
  | .ok a => pure a
  | .error e => throw (toError e)

/-- Reads an element as a number of at most `maxSize` bytes. -/
def readNum (flags : Flags) (maxSize : Nat) (element : Bytes) : Action Int :=
  orFail .num (ScriptNum.decode flags.minimalData maxSize element)

/-- Takes a number off the stack. The element is gone even if it is no number. -/
def popNum (env : Env) : Action Int := do
  readNum env.flags ScriptNum.operandSize (← pop)

/-- Fails for the opcode `byte` unless the check succeeded. -/
def verify (byte : UInt8) (success : Bool) : Action Unit :=
  if success then pure () else throw (.verify byte)

-- ---------------------------------------------------------------------------
-- The other stack, operations, questions
-- ---------------------------------------------------------------------------

/-- Puts an element on the alternative stack. -/
def altPush (element : Bytes) : Action Unit := fun frame =>
  match frame.altStack.push element with
  | .ok altStack => .ok () { frame with altStack }
  | .error e => .error (.ofStack e) frame

/-- Takes an element off the alternative stack. -/
def altPop : Action Bytes := fun frame =>
  match frame.altStack.pop with
  | .ok (element, altStack) => .ok element { frame with altStack }
  | .error _ => .error .invalidAltStackOperation frame

/-- Uses up `n` operations, and fails if these are more than there are. -/
def charge (limits : Limits) (n : Nat) : Action Unit := fun frame =>
  let frame := { frame with opCount := frame.opCount + n }
  if limits.maxOps < frame.opCount then .error .opCount frame else .ok () frame

/-- Asks the checker about a signature. -/
def askSignature (env : Env) (sig key : Bytes) : Action Bool := fun frame =>
  .ok (env.checker.checkSig sig key env.sighash)
    { frame with asked := .signature sig key env.sighash :: frame.asked }

/-- Asks the checker about a lock time. -/
def askLockTime (env : Env) (value : Int) : Action Bool := fun frame =>
  .ok (env.checker.checkLockTime value) { frame with asked := .lockTime value :: frame.asked }

-- ---------------------------------------------------------------------------
-- Questions asked before
-- ---------------------------------------------------------------------------

/-- The questions asked before make no difference to how an action ends, and none to the stacks and the
operations if it succeeds. -/
def IsBlind {α : Type} (x : Action α) : Prop :=
  ∀ frame asked, match x frame with
    | .ok a next => ∃ asked', x { frame with asked } = .ok a { next with asked := asked' }
    | .error e _ => ∃ last, x { frame with asked } = .error e last

end Action

end CoinScript
