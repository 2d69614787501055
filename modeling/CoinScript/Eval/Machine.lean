import CoinScript.Eval.Branches
import CoinScript.Eval.Event
import CoinScript.Eval.Handler

/-!
# The machine

A script runs command by command, but the program can grow on the way. A push that is followed only
by `OP_HASH160 hash OP_EQUAL` is a script to run next, if it has that hash. An empty element below a
program of 20 or 32 bytes, and nothing else on the stack, is a witness program: the witness and the
script that the program stands for run after everything else.
-/

namespace CoinScript

/-- What an evaluation is run with: the standard table of handlers, if no table is given. -/
structure Config (η : Type := Handler) extends Env where
  table : OpcodeTable η := by exact OpcodeTable.standard

/-- Something that is still to be run: a command of a script, or an element of the witness. Elements
of the witness are not written in a script, so no rule on pushes applies to them. -/
inductive Entry where
  | command (command : Command)
  | witness (data : Bytes)
  deriving DecidableEq, Repr

/-- The state of an evaluation. -/
structure Machine where
  frame : Frame
  /-- What is still to be run, the next one first. -/
  pending : List Entry
  /-- The open conditionals. -/
  branches : Branches := .closed
  /-- The witness, until a program takes it. -/
  witness : List Bytes
  pool : BufferPool
  /-- What happened so far, the latest first. -/
  events : List Event := []

/-- A change of the machine that can fail. -/
abbrev Step := EStateM EvalError Machine

namespace Machine

/-- Whether commands are executed: all open conditionals are in an arm that runs. -/
def isExecuting (m : Machine) : Bool := m.branches.isRunning

-- ---------------------------------------------------------------------------
-- Parts of a step
-- ---------------------------------------------------------------------------

/-- Does something to the stacks. -/
def act {α : Type} (x : Action α) : Step α := fun m =>
  match x m.frame with
  | .ok a frame => .ok a { m with frame }
  | .error e frame => .error e { m with frame }

/-- Does something under a condition. -/
def onlyIf (condition : Bool) (x : Step Unit) : Step Unit := if condition then x else pure ()

/-- Reports an event. -/
def report (event : Event) : Step Unit := fun m => .ok () { m with events := event :: m.events }

/-- Has entries run before everything that is pending. -/
def runNext (limits : Limits) (entries : List Entry) : Step Unit := fun m =>
  if limits.maxCommands < m.pending.length + entries.length then .error .scriptSize m
  else .ok () { m with pending := entries ++ m.pending }

/-- Has entries run after everything that is pending. -/
def runLast (limits : Limits) (entries : List Entry) : Step Unit := fun m =>
  if limits.maxCommands < m.pending.length + entries.length then .error .scriptSize m
  else .ok () { m with pending := m.pending ++ entries }

/-- Reads the commands of a body that came from the stack or from the witness. -/
def parseInjected (body : Bytes) : Step Script := fun m =>
  match Script.parseRawWith m.pool body with
  | (.ok script, pool) => .ok script { m with pool }
  | (.error e, pool) => .error (.injectedScript e) { m with pool }

/-- Takes the witness, leaving none. -/
def takeWitness : Step (List Bytes) := fun m => .ok m.witness { m with witness := [] }

-- ---------------------------------------------------------------------------
-- Scripts given by their hash
-- ---------------------------------------------------------------------------

/-- The hash, if a comparison with a hash is all that is pending. -/
def pendingHash? (m : Machine) : Option (Digest 20) :=
  match m.pending with
  | [.command a, .command b, .command c] => Script.scriptHashCheck? [a, b, c]
  | _ => none

/-- Instead of the pending comparison, runs the script on top of the stack, which has to have the
hash. -/
def redeem (limits : Limits) (hash : Digest 20) : Step Unit := do
  modify fun m => { m with pending := [] }
  let body ← act Action.pop
  if hash160 body = hash then do
    let script ← parseInjected body
    report (.redeemed hash script)
    runNext limits (script.map .command)
  else throw .scriptHashMismatch

/-- Redeems the pending hash, if there is one. -/
def redeemPending (limits : Limits) : Step Unit := do
  match (← get).pendingHash? with
  | some hash => redeem limits hash
  | none => pure ()

-- ---------------------------------------------------------------------------
-- Witness programs
-- ---------------------------------------------------------------------------

/-- The witness program that a stack amounts to: the program above the empty version. -/
def witnessProgram? (stack : Stack Bytes) : Option WitnessProgram :=
  match stack.elements with
  | [program, []] => WitnessProgram.ofBytes? program
  | _ => none

/-- Runs the witness and the check of a signature under the key with the hash. -/
def expandKey (limits : Limits) (hash : Digest 20) : Step Unit := do
  let witness ← takeWitness
  report (.expandedKey hash witness)
  runLast limits (witness.map .witness ++ (Script.p2pkh hash).map .command)

/-- Runs the witness without its last element, which has to be the script with the hash, and then
that script. -/
def expandScript (limits : Limits) (hash : Digest 32) : Step Unit := do
  let witness ← takeWitness
  match witness.getLast? with
  | none => throw .witnessProgramWitnessEmpty
  | some body =>
    if sha256 body = hash then do
      let script ← parseInjected body
      report (.expandedScript hash witness.dropLast script)
      runLast limits (witness.dropLast.map .witness ++ script.map .command)
    else throw .witnessProgramMismatch

def expand (limits : Limits) : WitnessProgram → Step Unit
  | .pubKeyHash hash => expandKey limits hash
  | .scriptHash hash => expandScript limits hash

/-- Takes the witness program off the stack and expands it, if there is one. -/
def expandWitness (limits : Limits) : Step Unit := do
  match witnessProgram? (← get).frame.stack with
  | some program => do
    act Action.drop
    act Action.drop
    expand limits program
  | none => pure ()

-- ---------------------------------------------------------------------------
-- Pushes
-- ---------------------------------------------------------------------------

/-- Pushes data, and then lets the rules apply that can change the program. Data that is pushed by a
script has to need a push, if pushes have to be minimal. -/
def pushData (env : Env) (scripted : Bool) (data : Bytes) : Step Unit := do
  if env.limits.maxElementSize < data.length then throw .pushSize
  else
    let m ← get
    if !m.isExecuting then pure ()
    else if scripted && env.flags.minimalData && !Element.needsPush data then throw .minimalData
    else do
      act (Action.push data)
      onlyIf env.flags.p2sh (redeemPending env.limits)
      onlyIf env.flags.witness (expandWitness env.limits)

-- ---------------------------------------------------------------------------
-- Opcodes
-- ---------------------------------------------------------------------------

/-- Opens a conditional whose first arm runs if the top of the stack is true, or not true, as
`expected` says. In an arm that does not run, neither does any inner arm. -/
def openBranch (expected : Bool) : Step Unit := fun m =>
  if m.isExecuting then
    match m.frame.stack.pop with
    | .error _ => .error .unbalancedConditional m
    | .ok (top, stack) =>
      .ok () { m with
        frame := { m.frame with stack }
        branches := m.branches.enter (Element.isTrue top == expected) }
  else .ok () { m with branches := m.branches.enter false }

/-- Goes to the other arm of the innermost conditional. -/
def flipBranch : Step Unit := fun m =>
  match m.branches.flip? with
  | none => .error .unbalancedConditional m
  | some branches => .ok () { m with branches }

/-- Closes the innermost conditional. -/
def closeBranch : Step Unit := fun m =>
  match m.branches.leave? with
  | none => .error .unbalancedConditional m
  | some branches => .ok () { m with branches }

variable {η : Type} [Executable η]

/-- Runs the handler of an opcode, unless the arm does not run. -/
def execute (config : Config η) (byte : UInt8) : Step Unit := do
  if (← get).isExecuting then
    match config.table.handler? byte with
    | none => throw (.unknownOpcode byte)
    | some handler => act (Executable.run config.toEnv byte handler)
  else pure ()

/-- Flow control, or the handler of an opcode. -/
def dispatch (config : Config η) (byte : UInt8) : Step Unit :=
  match Opcode.ofByte? byte with
  | some .opIf => openBranch true
  | some .opNotIf => openBranch false
  | some .opElse => flipBranch
  | some .opEndIf => closeBranch
  | _ => execute config byte

/-- Opcodes that fail wherever they stand. -/
def forbidden? (byte : UInt8) : Option EvalError :=
  if Opcode.isDisabledByte byte then some (.disabledOpcode byte)
  else if byte = Opcode.opVerIf.byte ∨ byte = Opcode.opVerNotIf.byte then some (.unknownOpcode byte)
  else none

/-- Runs an opcode. Opcodes are counted also in an arm that does not run. -/
def runOpcode (config : Config η) (byte : UInt8) : Step Unit :=
  match forbidden? byte with
  | some e => throw e
  | none => do
    onlyIf (Opcode.isCounted byte) (act (Action.charge config.limits 1))
    dispatch config byte

-- ---------------------------------------------------------------------------
-- Steps
-- ---------------------------------------------------------------------------

/-- The event that an entry is next. -/
def entryEvent (depth : Nat) : Entry → Event
  | .command command => .step command depth
  | .witness data => .witness data depth

/-- Reports that an entry is next. -/
def announce (entry : Entry) : Step Unit := fun m =>
  report (entryEvent m.frame.stack.length entry) m

/-- Runs an entry. -/
def runEntry (config : Config η) : Entry → Step Unit
  | .command (.push data) => pushData config.toEnv true data
  | .command (.opcode byte) => runOpcode config byte
  | .witness data => pushData config.toEnv false data

/-- Fails if there are too many elements on the two stacks. -/
def checkSize (limits : Limits) : Step Unit := fun m =>
  if limits.maxStackSize < m.frame.size then .error .stackSize m else .ok () m

/-- Reports an entry, runs it and checks the size of the stacks. -/
def step (config : Config η) (entry : Entry) : Step Unit := do
  announce entry
  runEntry config entry
  checkSize config.limits

/-- What is demanded at the end: no conditional is open, and the top of the stack is a success. -/
def finish : Step Unit := fun m =>
  if !m.branches.isEmpty then .error .unbalancedConditional m
  else
    match m.frame.stack.peek with
    | .ok top => if Element.isSuccess top then .ok () m else .error .evalFalse m
    | .error _ => .error .evalFalse m

end Machine

end CoinScript
