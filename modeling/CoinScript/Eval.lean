import CoinScript.Eval.Progress

/-!
# Evaluation

Running a script to its end. The unlocking script comes first and the locking script after it, and
the outcome is a success or the first failure.
-/

namespace CoinScript

variable {η : Type} [Executable η]

/-- Runs entries until none is pending or one fails. -/
def Machine.run (config : Config η) [ends : config.Ends] (m : Machine) :
    EStateM.Result EvalError Machine Unit :=
  match _ : m.pending with
  | [] => finish m
  | entry :: rest =>
    match _ : step config entry { m with pending := rest } with
    | .error e m' => .error e m'
    | .ok _ m' => run config m'
termination_by ends.wellFounded.wrap m
decreasing_by exact ⟨_, _, ‹_›, ‹_›⟩

/-- The machine before a script is scheduled. -/
def Machine.initial (limits : Limits) (witness : List Bytes) (pool : BufferPool) : Machine where
  frame := Frame.new limits
  pending := []
  witness
  pool

/-- How an evaluation ended, and the machine it left. -/
structure Outcome where
  result : Except EvalError Unit
  machine : Machine

namespace Outcome

/-- The code that is reported. -/
def code (outcome : Outcome) : ResultCode :=
  match outcome.result with
  | .ok _ => .ok
  | .error e => e.code

def succeeded (outcome : Outcome) : Bool := outcome.result.isOk

/-- What happened, in order, with the end. -/
def events (outcome : Outcome) : List Event :=
  let last := match outcome.result with
    | .ok _ => Event.succeeded
    | .error e => .failed e
  (last :: outcome.machine.events).reverse

/-- The questions asked of the checker, in order. -/
def queries (outcome : Outcome) : List Query := outcome.machine.frame.queries

end Outcome

/-- Evaluates a script with a witness, taking buffers from a pool. -/
def evaluateWith (config : Config η) [config.Ends] (script : Script) (witness : List Bytes)
    (pool : BufferPool) : Outcome :=
  let start := Machine.initial config.limits witness pool
  match Machine.runNext config.limits (script.map .command) start with
  | .error e m => ⟨.error e, m⟩
  | .ok _ m =>
    match m.run config with
    | .error e m => ⟨.error e, m⟩
    | .ok _ m => ⟨.ok (), m⟩

/-- Evaluates a script with a witness. -/
def evaluate (config : Config η) [config.Ends] (script : Script) (witness : List Bytes) : Outcome :=
  evaluateWith config script witness .empty

-- ---------------------------------------------------------------------------
-- Sessions
-- ---------------------------------------------------------------------------

/-- What several evaluations share: the latch for their codes and the pool of buffers. -/
structure Session where
  latch : Latch := {}
  pool : BufferPool := .empty

/-- Evaluates a script and leaves its code in the latch, whatever was there before. -/
def Session.evaluate (session : Session) (config : Config η) [config.Ends] (script : Script)
    (witness : List Bytes) : Outcome × Session :=
  let outcome := evaluateWith config script witness session.pool
  (outcome, ⟨(session.latch.reset.record outcome.code).2, outcome.machine.pool⟩)

-- ---------------------------------------------------------------------------
-- Spending an output
-- ---------------------------------------------------------------------------

/-- The answer to whether an output can be spent. -/
structure Verification where
  result : Except ResultCode Unit
  events : List Event := []
  queries : List Query := []

/-- Runs the unlocking script and then the locking script, with a witness. -/
def verify (env : Env) (scriptSig scriptPubKey : Script) (witness : List Bytes) : Verification :=
  if env.flags.sigPushOnly && !scriptSig.isPushOnly then ⟨.error .sigPushOnly, [], []⟩
  else
    let outcome := evaluate { env with } (scriptSig ++ scriptPubKey) witness
    let result := match outcome.result with
      | .ok _ => .ok ()
      | .error e => .error e.code
    ⟨result, outcome.events, outcome.queries⟩

/-- Whether an unlocking script and a witness satisfy a locking script, or the code that says why
not. -/
def verifyScript (flags : Flags) (checker : Checker) (sighash : Digest 32)
    (scriptSig scriptPubKey : Script) (witness : List Bytes) : Except ResultCode Unit :=
  (verify { flags, checker, sighash } scriptSig scriptPubKey witness).result

end CoinScript
