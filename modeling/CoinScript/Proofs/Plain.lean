import CoinScript.Proofs.Commands
import CoinScript.Proofs.Simulation

/-!
# The plain machine

Without the two rules that change the program, an evaluation only goes through its commands from left to
right. The plain machine does just that: its state is the two stacks, the operations used and the open
conditionals, and a command leads from one state to the next or fails. The main result says that an
evaluation under such flags is the run of the plain machine. So the locking script starts from the very
state that the unlocking script leaves, and if it has no flow control, it is executed as a whole.
-/

namespace CoinScript

/-- The state of the plain machine. -/
structure Plain where
  stack : Stack Bytes
  altStack : Stack Bytes
  opCount : Nat := 0
  branches : Branches := .closed
  deriving DecidableEq

namespace Plain

/-- Empty stacks of the size that the limits allow. -/
def initial (limits : Limits) : Plain where
  stack := .new limits.maxStackSize
  altStack := .new limits.maxStackSize

def isExecuting (s : Plain) : Bool := s.branches.isRunning

/-- What opcodes work on. -/
def frame (s : Plain) : Frame := ⟨s.stack, s.altStack, s.opCount, []⟩

/-- Does something to the stacks. -/
def act (x : Action Unit) (s : Plain) : Except EvalError Plain :=
  match x s.frame with
  | .ok _ frame =>
    .ok { s with stack := frame.stack, altStack := frame.altStack, opCount := frame.opCount }
  | .error e _ => .error e

/-- Pushes data, unless the arm does not run. -/
def push (env : Env) (data : Bytes) (s : Plain) : Except EvalError Plain :=
  if env.limits.maxElementSize < data.length then .error .pushSize
  else if !s.isExecuting then .ok s
  else if env.flags.minimalData && !Element.needsPush data then .error .minimalData
  else s.act (Action.push data)

/-- Opens a conditional whose first arm runs if the top of the stack is true, or not true, as
`expected` says. In an arm that does not run, neither does any inner arm. -/
def openBranch (expected : Bool) (s : Plain) : Except EvalError Plain :=
  if s.isExecuting then
    match s.stack.pop with
    | .error _ => .error .unbalancedConditional
    | .ok (top, stack) =>
      .ok { s with stack, branches := s.branches.enter (Element.isTrue top == expected) }
  else .ok { s with branches := s.branches.enter false }

/-- Changes the innermost conditional, if there is one. -/
def alterBranch (f : Branches → Option Branches) (s : Plain) : Except EvalError Plain :=
  match f s.branches with
  | none => .error .unbalancedConditional
  | some branches => .ok { s with branches }

variable {η : Type} [Executable η]

/-- Runs the handler of an opcode, unless the arm does not run. -/
def execute (config : Config η) (byte : UInt8) (s : Plain) : Except EvalError Plain :=
  if s.isExecuting then
    match config.table.handler? byte with
    | none => .error (.unknownOpcode byte)
    | some handler => s.act (Executable.run config.toEnv byte handler)
  else .ok s

/-- Flow control, or the handler of an opcode. -/
def dispatch (config : Config η) (byte : UInt8) : Plain → Except EvalError Plain :=
  match Opcode.ofByte? byte with
  | some .opIf => openBranch true
  | some .opNotIf => openBranch false
  | some .opElse => alterBranch Branches.flip?
  | some .opEndIf => alterBranch Branches.leave?
  | _ => execute config byte

/-- Uses up an operation, if the opcode is counted. -/
def count (limits : Limits) (byte : UInt8) (s : Plain) : Except EvalError Plain :=
  if Opcode.isCounted byte then s.act (Action.charge limits 1) else .ok s

/-- Runs an opcode. Opcodes are counted also in an arm that does not run. -/
def opcode (config : Config η) (byte : UInt8) (s : Plain) : Except EvalError Plain :=
  match Machine.forbidden? byte with
  | some e => .error e
  | none => do
    let s ← s.count config.limits byte
    s.dispatch config byte

def command (config : Config η) (s : Plain) : Command → Except EvalError Plain
  | .push data => s.push config.toEnv data
  | .opcode byte => s.opcode config byte

/-- Fails if there are too many elements on the two stacks. -/
def checkSize (limits : Limits) (s : Plain) : Except EvalError Plain :=
  if limits.maxStackSize < s.stack.length + s.altStack.length then .error .stackSize else .ok s

/-- Runs a command and checks the size of the stacks. -/
def step (config : Config η) (s : Plain) (c : Command) : Except EvalError Plain := do
  let s ← s.command config c
  s.checkSize config.limits

/-- Runs the commands of a script in order. -/
def steps (config : Config η) (script : Script) (s : Plain) : Except EvalError Plain :=
  script.foldlM (step config) s

/-- What is demanded at the end: no conditional is open, and the top of the stack is a success. -/
def finish (s : Plain) : Except EvalError Unit :=
  if !s.branches.isEmpty then .error .unbalancedConditional
  else
    match s.stack.peek with
    | .ok top => if Element.isSuccess top then .ok () else .error .evalFalse
    | .error _ => .error .evalFalse

/-- Runs a script to its end. -/
def run (config : Config η) (script : Script) (s : Plain) : Except EvalError Unit := do
  let s ← s.steps config script
  s.finish

/-! ## Scripts without flow control -/

variable {config : Config η} {s t : Plain}

theorem bind_eq_ok {α β : Type} {x : Except EvalError α} {f : α → Except EvalError β} {b : β}
    (h : x >>= f = .ok b) : ∃ a, x = .ok a ∧ f a = .ok b := by
  cases x with
  | ok a => exact ⟨a, rfl, h⟩
  | error e => cases h

theorem branches_of_act {x : Action Unit} (h : s.act x = .ok t) : t.branches = s.branches := by
  unfold act at h
  split at h
  · cases h
    rfl
  · cases h

theorem branches_of_push {env : Env} {data : Bytes} (h : s.push env data = .ok t) :
    t.branches = s.branches := by
  unfold push at h
  split at h
  · cases h
  · split at h
    · cases h
      rfl
    · split at h
      · cases h
      · exact branches_of_act h

theorem dispatch_of_isStraight {byte : UInt8} (h : (Command.opcode byte).isStraight) :
    dispatch config byte = execute config byte := by
  unfold Command.isStraight at h
  unfold dispatch
  split <;> simp_all

theorem branches_of_execute {byte : UInt8} (h : s.execute config byte = .ok t) :
    t.branches = s.branches := by
  unfold execute at h
  split at h
  · split at h
    · cases h
    · exact branches_of_act h
  · cases h
    rfl

theorem branches_of_opcode {byte : UInt8} (hstraight : (Command.opcode byte).isStraight)
    (h : s.opcode config byte = .ok t) : t.branches = s.branches := by
  unfold opcode at h
  split at h
  · cases h
  · obtain ⟨counted, hcounted, h⟩ := bind_eq_ok h
    rw [dispatch_of_isStraight hstraight] at h
    rw [branches_of_execute h]
    unfold count at hcounted
    split at hcounted
    · exact branches_of_act hcounted
    · cases hcounted
      rfl

/-- A command that is no flow control leaves the conditionals as they are. -/
theorem branches_of_step {c : Command} (hstraight : c.isStraight) (h : s.step config c = .ok t) :
    t.branches = s.branches := by
  obtain ⟨next, hnext, h⟩ := bind_eq_ok h
  unfold checkSize at h
  split at h
  · cases h
  · cases h
    cases c with
    | push data => exact branches_of_push hnext
    | opcode byte => exact branches_of_opcode hstraight hnext

theorem steps_cons (c : Command) (script : Script) :
    s.steps config (c :: script) = s.step config c >>= steps config script := rfl

theorem steps_append (first second : Script) :
    s.steps config (first ++ second) = s.steps config first >>= steps config second :=
  List.foldlM_append

theorem run_append (first second : Script) :
    s.run config (first ++ second) = s.steps config first >>= run config second := by
  unfold run
  rw [steps_append, bind_assoc]

theorem branches_of_steps {script : Script} (hstraight : ∀ c ∈ script, c.isStraight)
    (h : s.steps config script = .ok t) : t.branches = s.branches := by
  induction script generalizing s with
  | nil =>
    cases h
    rfl
  | cons c script ih =>
    obtain ⟨hfirst, hothers⟩ := List.forall_mem_cons.1 hstraight
    obtain ⟨next, hstep, h⟩ := bind_eq_ok h
    rw [ih hothers h, branches_of_step hfirst hstep]

theorem isEmpty_of_finish (h : s.finish = .ok ()) : s.branches.isEmpty := by
  unfold finish at h
  split at h
  · cases h
  · rename_i hopen
    simpa using hopen

/-- A script without flow control that runs to a success begins with no open conditional, and each of
its commands is executed. -/
theorem executed_of_run {script : Script} (hstraight : ∀ c ∈ script, c.isStraight)
    (h : s.run config script = .ok ()) :
    s.branches.isEmpty ∧ ∀ front c back, script = front ++ c :: back →
      ∃ before, s.steps config front = .ok before ∧ before.isExecuting := by
  obtain ⟨last, hsteps, hfinish⟩ := bind_eq_ok h
  have hempty : s.branches.isEmpty := by
    rw [← branches_of_steps hstraight hsteps]
    exact isEmpty_of_finish hfinish
  refine ⟨hempty, ?_⟩
  rintro front c back rfl
  rw [steps_append] at hsteps
  obtain ⟨before, hbefore, -⟩ := bind_eq_ok hsteps
  refine ⟨before, hbefore, Branches.isRunning_of_isEmpty ?_⟩
  rw [branches_of_steps (fun c hc => hstraight c (List.mem_append_left _ hc)) hbefore]
  exact hempty

end Plain

/-! ## Machines whose program does not change -/

namespace Machine

variable {η : Type} [Executable η] [BlindExecutable η] {config : Config η} {m : Machine}
  {x y : Step Unit} {f g : Plain → Except EvalError Plain}

/-- What the plain machine has of a machine. -/
def plain (m : Machine) : Plain := ⟨m.frame.stack, m.frame.altStack, m.frame.opCount, m.branches⟩

theorem alike_plain (m : Machine) : m.frame.Alike m.plain.frame := ⟨[], rfl⟩

/-- A change of the machine does what the plain machine does. -/
def Mirrors (x : Step Unit) (f : Plain → Except EvalError Plain) : Prop :=
  ∀ m, match x m with
    | .ok _ m' => f m.plain = .ok m'.plain
    | .error e _ => f m.plain = .error e

theorem mirrors_pure : Mirrors (pure ()) .ok := fun _ => rfl

theorem mirrors_bind (hx : Mirrors x f) (hy : Mirrors y g) :
    Mirrors (do x; y) fun s => f s >>= g := by
  intro m
  have hfirst := hx m
  simp only [bind, EStateM.bind]
  cases hxm : x m with
  | error e next =>
    rw [hxm] at hfirst
    simp only [hfirst, Except.bind]
  | ok _ next =>
    rw [hxm] at hfirst
    simp only [hfirst, Except.bind]
    exact hy next

/-- The questions asked before make no difference to an action. -/
theorem mirrors_act {x : Action Unit} (hx : Action.SimulatedBy True x x) :
    Mirrors (act x) (Plain.act x) := by
  intro m
  have hanswers := hx m.frame m.plain.frame m.alike_plain
  unfold act Plain.act
  cases hxm : x m.frame with
  | error e frame =>
    rw [hxm] at hanswers
    obtain ⟨frame', hplain⟩ := hanswers trivial
    simp only [hplain]
  | ok _ frame =>
    rw [hxm] at hanswers
    obtain ⟨frame', hplain, asked, rfl⟩ := hanswers
    simp only [hplain]
    rfl

/-- A push that no rule applies to only puts the data on the stack. -/
theorem mirrors_pushData {env : Env} (hp2sh : env.flags.p2sh = false)
    (hwitness : env.flags.witness = false) (data : Bytes) :
    Mirrors (pushData env true data) (Plain.push env data) := by
  intro m
  rw [pushData_eq]
  unfold Plain.push
  by_cases hsize : env.limits.maxElementSize < data.length
  · simp only [hsize, if_true]
  · simp only [hsize, if_false]
    cases hexec : m.isExecuting with
    | false =>
      have hskipped : m.plain.isExecuting = false := hexec
      simp only [hskipped, Bool.not_false, if_true]
    | true =>
      have hexecuted : m.plain.isExecuting = true := hexec
      simp only [hexecuted, Bool.not_true, Bool.false_eq_true, if_false, Bool.true_and]
      by_cases hminimal : (env.flags.minimalData && !Element.needsPush data) = true
      · simp only [hminimal, if_true]
        rfl
      · have hact := mirrors_act (x := Action.push data) (Action.simulated_alter _) m
        simp only [hminimal, hp2sh, hwitness, onlyIf, Bool.false_eq_true, if_false, bind_pure_unit]
        exact hact

theorem mirrors_openBranch (expected : Bool) :
    Mirrors (openBranch expected) (Plain.openBranch expected) := by
  intro m
  unfold openBranch Plain.openBranch
  have hexec : m.plain.isExecuting = m.isExecuting := rfl
  have hstack : m.plain.stack = m.frame.stack := rfl
  rw [hexec, hstack]
  cases m.isExecuting with
  | false => rfl
  | true =>
    simp only [if_true]
    cases m.frame.stack.pop with
    | error e => rfl
    | ok taken => rfl

theorem mirrors_flipBranch : Mirrors flipBranch (Plain.alterBranch Branches.flip?) := by
  intro m
  unfold flipBranch Plain.alterBranch
  have hbranches : m.plain.branches = m.branches := rfl
  rw [hbranches]
  cases m.branches.flip? with
  | none => rfl
  | some branches => rfl

theorem mirrors_closeBranch : Mirrors closeBranch (Plain.alterBranch Branches.leave?) := by
  intro m
  unfold closeBranch Plain.alterBranch
  have hbranches : m.plain.branches = m.branches := rfl
  rw [hbranches]
  cases m.branches.leave? with
  | none => rfl
  | some branches => rfl

theorem mirrors_execute (byte : UInt8) :
    Mirrors (execute config byte) (Plain.execute config byte) := by
  intro m
  rw [execute_eq]
  unfold Plain.execute
  have hexec : m.plain.isExecuting = m.isExecuting := rfl
  rw [hexec]
  cases m.isExecuting with
  | false => rfl
  | true =>
    simp only [if_true]
    cases config.table.handler? byte with
    | none => rfl
    | some handler =>
      have hblind := BlindExecutable.isBlind_run config.toEnv byte handler
      exact mirrors_act (Action.isBlind_iff_simulated.1 hblind) m

theorem mirrors_dispatch (byte : UInt8) :
    Mirrors (dispatch config byte) (Plain.dispatch config byte) := by
  cases hstraight : (Command.opcode byte).isStraight with
  | true =>
    rw [dispatch_of_isStraight hstraight, Plain.dispatch_of_isStraight hstraight]
    exact mirrors_execute byte
  | false =>
    unfold dispatch Plain.dispatch
    rcases Command.flowControl_of_isStraight hstraight with hop | hop | hop | hop <;> rw [hop]
    · exact mirrors_openBranch true
    · exact mirrors_openBranch false
    · exact mirrors_flipBranch
    · exact mirrors_closeBranch

theorem mirrors_count (limits : Limits) (byte : UInt8) :
    Mirrors (onlyIf (Opcode.isCounted byte) (act (Action.charge limits 1)))
      (Plain.count limits byte) := by
  unfold onlyIf Plain.count
  cases Opcode.isCounted byte with
  | false => exact mirrors_pure
  | true => exact mirrors_act (Action.simulated_charge limits 1)

theorem mirrors_runOpcode (byte : UInt8) :
    Mirrors (runOpcode config byte) (Plain.opcode config byte) := by
  unfold runOpcode Plain.opcode
  cases forbidden? byte with
  | some e => exact fun _ => rfl
  | none => exact mirrors_bind (mirrors_count config.limits byte) (mirrors_dispatch byte)

theorem mirrors_checkSize (limits : Limits) :
    Mirrors (checkSize limits) (Plain.checkSize limits) := by
  intro m
  unfold checkSize Plain.checkSize
  by_cases hsize : limits.maxStackSize < m.frame.size
  · rw [if_pos hsize]
    exact if_pos hsize
  · rw [if_neg hsize]
    exact if_neg hsize

/-- A step under flags without the two rules is the step of the plain machine. -/
theorem mirrors_step (hp2sh : config.flags.p2sh = false) (hwitness : config.flags.witness = false)
    (c : Command) : Mirrors (step config (.command c)) fun s => s.step config c := by
  have hcommand : Mirrors (runEntry config (.command c)) fun s => s.command config c := by
    cases c with
    | push data => exact mirrors_pushData hp2sh hwitness data
    | opcode byte => exact mirrors_runOpcode byte
  have hannounce : Mirrors (announce (.command c)) .ok := fun _ => rfl
  have hrest := mirrors_bind hcommand (mirrors_checkSize config.limits)
  exact mirrors_bind (g := fun s => s.step config c) hannounce hrest

/-- How a run ends, without the machine that it leaves. -/
def ending (config : Config η) [config.Ends] (m : Machine) : Except EvalError Unit :=
  match m.run config with
  | .ok _ _ => .ok ()
  | .error e _ => .error e

variable [config.Ends]

omit [BlindExecutable η] in
theorem ending_of_nil (h : m.pending = []) : m.ending config = m.plain.finish := by
  unfold ending
  rw [run_of_nil h]
  unfold finish Plain.finish
  have hbranches : m.plain.branches = m.branches := rfl
  have hstack : m.plain.stack = m.frame.stack := rfl
  rw [hbranches, hstack]
  cases m.branches.isEmpty with
  | false => rfl
  | true =>
    simp only [Bool.not_true, Bool.false_eq_true, if_false]
    cases m.frame.stack.peek with
    | error e => rfl
    | ok top =>
      simp only
      cases Element.isSuccess top <;> rfl

/-- A run under flags without the two rules is a run of the plain machine. -/
theorem ending_eq_run (hp2sh : config.flags.p2sh = false) (hwitness : config.flags.witness = false)
    {script : Script} (hp : m.pending = script.map .command) :
    m.ending config = m.plain.run config script := by
  -- The machines of a run differ in what the plain machine does not have, hence for any machine.
  induction script generalizing m with
  | nil => exact ending_of_nil hp
  | cons c script ih =>
    have hmirrors := mirrors_step hp2sh hwitness c { m with pending := script.map .command }
    unfold ending
    rw [run_of_cons hp]
    unfold Plain.run
    rw [Plain.steps_cons]
    cases hstep : step config (.command c) { m with pending := script.map .command } with
    | error e next =>
      rw [hstep] at hmirrors
      have hplain : m.plain.step config c = .error e := hmirrors
      rw [hplain]
      rfl
    | ok _ next =>
      rw [hstep] at hmirrors
      have hplain : m.plain.step config c = .ok next.plain := hmirrors
      rw [hplain]
      exact ih (pending_kept_of_step hp2sh hwitness hstep)

end Machine

section Evaluation

variable {η : Type} [Executable η] [BlindExecutable η] {config : Config η} [config.Ends]
  {script scriptSig scriptPubKey : Script} {witness : List Bytes} {pool : BufferPool}

theorem evaluateWith_result (hp2sh : config.flags.p2sh = false)
    (hwitness : config.flags.witness = false) :
    (evaluateWith config script witness pool).result =
      if config.limits.maxCommands < script.length then .error .scriptSize
      else (Plain.initial config.limits).run config script := by
  by_cases hsize : config.limits.maxCommands < script.length
  · rw [evaluateWith_of_oversized config hsize, if_pos hsize]
  · rw [evaluateWith_of_fits config (Nat.le_of_not_lt hsize), if_neg hsize]
    have hending : Machine.ending config
        { Machine.start config.limits script witness with pool } =
          (Plain.initial config.limits).run config script :=
      Machine.ending_eq_run hp2sh hwitness rfl
    rw [← hending, Machine.ending]
    cases Machine.run config { Machine.start config.limits script witness with pool } <;> rfl

/-- The locking script runs from the state that the unlocking script leaves. -/
theorem evaluateWith_append_result (hp2sh : config.flags.p2sh = false)
    (hwitness : config.flags.witness = false) :
    (evaluateWith config (scriptSig ++ scriptPubKey) witness pool).result =
      if config.limits.maxCommands < (scriptSig ++ scriptPubKey).length then .error .scriptSize
      else (Plain.initial config.limits).steps config scriptSig >>= Plain.run config scriptPubKey := by
  rw [evaluateWith_result hp2sh hwitness, Plain.run_append]

end Evaluation

/-- Without the rules on scripts given by their hash and on witness programs an evaluation is the run of
the plain machine, unless the script is too long; neither the witness nor the pool matters, and the table
can hold whatever does not depend on the questions asked before. So the locking script runs from the state
that the unlocking script leaves. If the locking script has no flow control and the evaluation succeeds,
the unlocking script has left no conditional open, and every command of the locking script has been
executed. -/
theorem evaluation_plain {η : Type} [Executable η] [BlindExecutable η] (config : Config η)
    (hp2sh : config.flags.p2sh = false) (hwitness : config.flags.witness = false) :
    haveI : config.Ends := Config.ends_of_no_rules hp2sh hwitness
    (∀ script witness pool, (evaluateWith config script witness pool).result =
        if config.limits.maxCommands < script.length then .error .scriptSize
        else (Plain.initial config.limits).run config script) ∧
      (∀ scriptSig scriptPubKey witness pool,
        (evaluateWith config (scriptSig ++ scriptPubKey) witness pool).result =
          if config.limits.maxCommands < (scriptSig ++ scriptPubKey).length then .error .scriptSize
          else (Plain.initial config.limits).steps config scriptSig >>=
            Plain.run config scriptPubKey) ∧
      ∀ scriptSig scriptPubKey witness pool, (∀ c ∈ scriptPubKey, c.isStraight) →
        (evaluateWith config (scriptSig ++ scriptPubKey) witness pool).result = .ok () →
        ∃ left, (Plain.initial config.limits).steps config scriptSig = .ok left ∧
          left.branches.isEmpty ∧
          ∀ front c back, scriptPubKey = front ++ c :: back →
            ∃ before, left.steps config front = .ok before ∧ before.isExecuting := by
  have : config.Ends := Config.ends_of_no_rules hp2sh hwitness
  refine ⟨fun script witness pool => evaluateWith_result hp2sh hwitness,
    fun scriptSig scriptPubKey witness pool => evaluateWith_append_result hp2sh hwitness, ?_⟩
  intro scriptSig scriptPubKey witness pool hstraight hresult
  rw [evaluateWith_append_result hp2sh hwitness] at hresult
  split at hresult
  · cases hresult
  · obtain ⟨left, hleft, hrun⟩ := Plain.bind_eq_ok hresult
    exact ⟨left, hleft, Plain.executed_of_run hstraight hrun⟩

/-- A routine that gives all operations back, which no handler does. -/
def Routine.refund : Routine where
  run _ _ := modify fun frame => { frame with opCount := 0 }
  isBlind _ _ _ asked := ⟨asked, rfl⟩

/-- The comparison of an element with itself is executed on what a push leaves. With an unknown opcode
that gives the operations back it can use one more than are allowed. -/
theorem evaluation_plain_dup_equal :
    let standard : Config := { flags := .none, sighash := sha256 [] }
    let refunding : Config Routine := {
      flags := .none
      limits := { maxOps := 2 }
      sighash := sha256 []
      table := OpcodeTable.standard.routines.bind 0xba .refund }
    haveI : refunding.Ends := Config.ends_of_no_rules rfl rfl
    ((evaluateWith standard ([.push [0x2a]] ++ [.ofOpcode .opDup, .ofOpcode .opEqual])
          [[0x01]] .empty).result = .ok () ∧
        ∃ left, (Plain.initial {}).steps standard [.push [0x2a]] = .ok left ∧
          left.branches.isEmpty) ∧
      (evaluateWith refunding
          ([.push [0x2a]] ++ [.ofOpcode .opDup, .opcode 0xba, .ofOpcode .opEqual])
          [[0x01]] .empty).result = .ok () ∧
        ∃ left, (Plain.initial {}).steps refunding [.push [0x2a]] = .ok left ∧
          left.branches.isEmpty := by
  intro standard refunding
  have : refunding.Ends := Config.ends_of_no_rules rfl rfl
  constructor
  · have hplain := evaluation_plain standard rfl rfl
    have hresult : (evaluateWith standard
        ([.push [0x2a]] ++ [.ofOpcode .opDup, .ofOpcode .opEqual]) [[0x01]] .empty).result =
          .ok () := by
      rw [hplain.1]
      rfl
    obtain ⟨left, hleft, hempty, -⟩ := hplain.2.2 _ _ _ _ (by decide) hresult
    exact ⟨hresult, left, hleft, hempty⟩
  · have hplain := evaluation_plain refunding rfl rfl
    have hresult : (evaluateWith refunding
        ([.push [0x2a]] ++ [.ofOpcode .opDup, .opcode 0xba, .ofOpcode .opEqual])
          [[0x01]] .empty).result = .ok () := by
      rw [hplain.1]
      rfl
    obtain ⟨left, hleft, hempty, -⟩ := hplain.2.2 _ _ _ _ (by decide) hresult
    exact ⟨hresult, left, hleft, hempty⟩

end CoinScript
