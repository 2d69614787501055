import CoinScript.Proofs.Verdict

/-!
# Commands in a run

What a run that succeeds tells of the command that it starts with. Flow control apart, a command is
executed or skipped as the open conditionals say, and it leaves them as they are. So a script without
flow control is executed as a whole or not at all, and it cannot be the end if it is not executed.
-/

namespace CoinScript

/-- Whether a command is no flow control. -/
def Command.isStraight : Command → Bool
  | .push _ => true
  | .opcode byte =>
    match Opcode.ofByte? byte with
    | some .opIf | some .opNotIf | some .opElse | some .opEndIf => false
    | _ => true

theorem Command.flowControl_of_isStraight {byte : UInt8}
    (h : (Command.opcode byte).isStraight = false) :
    Opcode.ofByte? byte = some .opIf ∨ Opcode.ofByte? byte = some .opNotIf ∨
      Opcode.ofByte? byte = some .opElse ∨ Opcode.ofByte? byte = some .opEndIf := by
  simp only [isStraight] at h
  split at h <;> simp_all

namespace Machine

variable {env : Env} {m m' : Machine}

theorem dispatch_of_isStraight {η : Type} [Executable η] {config : Config η} {byte : UInt8}
    (h : (Command.opcode byte).isStraight) : dispatch config byte = execute config byte := by
  unfold Command.isStraight at h
  unfold dispatch
  split <;> simp_all

/-! ## Skipped commands -/

/-- A command that is no flow control and not executed leaves everything but the counts. -/
theorem step_of_skipped {command : Command} (hstraight : command.isStraight)
    (hskipped : m.isExecuting = false)
    (h : step { toEnv := env } (.command command) m = .ok () m') :
    m'.pending = m.pending ∧ m'.branches = m.branches := by
  obtain ⟨hrun, -⟩ := step_ok h
  cases command with
  | push data =>
    obtain ⟨-, ⟨-, rfl⟩ | ⟨hexec, -⟩⟩ := pushData_ok hrun
    · exact ⟨rfl, rfl⟩
    · rw [show m.isExecuting = true from hexec] at hskipped
      cases hskipped
  | opcode byte =>
    obtain ⟨-, count, -, hdispatch⟩ := runOpcode_ok hrun
    rw [dispatch_of_isStraight hstraight] at hdispatch
    obtain ⟨hm, -⟩ := execute_ok hdispatch
    rw [hm]
    exact ⟨rfl, rfl⟩

/-- A script without flow control succeeds only if it is executed: otherwise a conditional is still
open at the end. -/
theorem isExecuting_of_run {script : Script} (hstraight : ∀ command ∈ script, command.isStraight)
    (hp : m.pending = script.map .command) (h : m.run { toEnv := env } = .ok () m') :
    m.isExecuting := by
  induction script generalizing m with
  | nil =>
    rw [run_of_nil hp] at h
    obtain ⟨-, hclosed, -⟩ := finish_ok h
    exact Branches.isRunning_of_isEmpty hclosed
  | cons command script ih =>
    obtain ⟨hfirst, hothers⟩ := List.forall_mem_cons.1 hstraight
    obtain ⟨next, hstep, hrun⟩ := run_cons_ok hp h
    cases hexec : m.isExecuting with
    | true => rfl
    | false =>
      obtain ⟨hpending, hbranches⟩ :=
        step_of_skipped (m := { m with pending := script.map .command }) hfirst hexec hstep
      have hnext := ih hothers hpending hrun
      rw [isExecuting, hbranches] at hnext
      exact absurd hnext (by simpa [isExecuting] using hexec)

/-! ## Executed commands -/

/-- A run that executes an opcode that is no flow control has run its handler on the stacks. -/
theorem run_execute_ok {byte : UInt8} {rest : List Entry}
    (hp : m.pending = .command (.opcode byte) :: rest) (hexec : m.isExecuting)
    (hstraight : (Command.opcode byte).isStraight)
    (h : m.run { toEnv := env } = .ok () m') :
    ∃ (next : Machine) (count : Nat) (handler : Handler),
      OpcodeTable.standard.handler? byte = some handler ∧ next.pending = rest ∧
      next.witness = m.witness ∧ next.isExecuting ∧
      handler.run env byte { m.frame with opCount := count } = .ok () next.frame ∧
      next.run { toEnv := env } = .ok () m' := by
  obtain ⟨next, hstep, h⟩ := run_cons_ok hp h
  obtain ⟨hrun, -⟩ := step_ok hstep
  obtain ⟨-, count, -, hdispatch⟩ := runOpcode_ok hrun
  rw [dispatch_of_isStraight hstraight] at hdispatch
  obtain ⟨hm, ⟨hskipped, -⟩ | ⟨-, handler, hhandler, hrun⟩⟩ := execute_ok hdispatch
  · rw [show m.isExecuting = false from hskipped] at hexec
    cases hexec
  · refine ⟨next, count, handler, hhandler, ?_, ?_, ?_, hrun, h⟩
    · rw [hm]
      rfl
    · rw [hm]
      rfl
    · rw [hm]
      exact hexec

theorem run_opcode_ok {byte : UInt8} {handler : Handler} {rest : List Entry}
    (hp : m.pending = .command (.opcode byte) :: rest) (hexec : m.isExecuting)
    (hstraight : (Command.opcode byte).isStraight)
    (hhandler : OpcodeTable.standard.handler? byte = some handler)
    (h : m.run { toEnv := env } = .ok () m') :
    ∃ (next : Machine) (count : Nat), next.pending = rest ∧ next.witness = m.witness ∧
      next.isExecuting ∧
      handler.run env byte { m.frame with opCount := count } = .ok () next.frame ∧
      next.run { toEnv := env } = .ok () m' := by
  obtain ⟨next, count, found, hfound, hnext⟩ := run_execute_ok hp hexec hstraight h
  rw [hhandler] at hfound
  cases hfound
  exact ⟨next, count, hnext⟩

/-- An executed push leaves the data on the stack, and then the two rules apply, as far as they are
switched on. -/
theorem pushData_of_executed {scripted : Bool} {data : Bytes}
    (h : pushData env scripted data m = .ok () m') (hexec : m.isExecuting) :
    ∃ m₁, (env.flags.p2sh = true ∧ Redeemed (m.pushed data) m₁ ∨
        env.flags.p2sh = false ∧ m.pushed data = m₁) ∧
      (env.flags.witness = true ∧ Expanded m₁ m' ∨ env.flags.witness = false ∧ m₁ = m') := by
  obtain ⟨-, ⟨hskipped, -⟩ | ⟨-, hrules⟩⟩ := pushData_ok h
  · rw [hskipped] at hexec
    cases hexec
  · exact hrules

/-- An executed push in front of anything but the comparison with a hash leads at most to the expansion
of a witness program. -/
theorem expanded_of_pushData {scripted : Bool} {data : Bytes}
    (h : pushData env scripted data m = .ok () m') (hexec : m.isExecuting)
    (hhash : env.flags.p2sh → m.pendingHash? = none) :
    env.flags.witness = true ∧ Expanded (m.pushed data) m' ∨
      env.flags.witness = false ∧ m.pushed data = m' := by
  obtain ⟨m₁, hredeem, hexpand⟩ := pushData_of_executed h hexec
  have hpushed : m.pushed data = m₁ := by
    rcases hredeem with ⟨hflag, hredeem⟩ | ⟨-, hredeem⟩
    · cases hredeem with
      | nothing => rfl
      | script hpending =>
        rw [show (m.pushed data).pendingHash? = m.pendingHash? from rfl, hhash hflag] at hpending
        cases hpending
    · exact hredeem
  subst hpushed
  exact hexpand

/-- The program on the stack is what was pushed last. -/
theorem ofBytes?_of_pushed {data : Bytes} {program : WitnessProgram}
    (h : witnessProgram? (m.pushed data).frame.stack = some program) :
    WitnessProgram.ofBytes? data = some program := by
  obtain ⟨bytes, hstack⟩ := witnessProgram?_length h
  simp only [witnessProgram?, hstack] at h
  simp only [pushed, Stack.elements_ofList, List.cons.injEq] at hstack
  rw [hstack.1]
  exact h

/-- A push on anything but the empty version alone is no witness program. -/
theorem pushed_of_pushData {scripted : Bool} {data : Bytes}
    (h : pushData env scripted data m = .ok () m') (hexec : m.isExecuting)
    (hhash : m.pendingHash? = none) (hstack : m.frame.stack.elements ≠ [[]]) :
    m.pushed data = m' := by
  have hno : ∀ program, witnessProgram? (m.pushed data).frame.stack ≠ some program := by
    intro program hprogram
    obtain ⟨bytes, hpushed⟩ := witnessProgram?_length hprogram
    simp only [pushed, Stack.elements_ofList, List.cons.injEq] at hpushed
    exact hstack hpushed.2
  rcases expanded_of_pushData h hexec fun _ => hhash with ⟨-, hexpanded⟩ | ⟨-, hpushed⟩
  · cases hexpanded with
    | nothing => rfl
    | key hprogram => exact absurd hprogram (hno _)
    | script hprogram => exact absurd hprogram (hno _)
  · exact hpushed

/-- A run that pushes data on such a stack goes on with the data on top. -/
theorem run_push_ok {data : Bytes} {rest : List Entry}
    (hp : m.pending = .command (.push data) :: rest) (hexec : m.isExecuting)
    (hhash : ∀ hash, rest ≠ (Script.p2sh hash).map .command)
    (hstack : m.frame.stack.elements ≠ [[]]) (h : m.run { toEnv := env } = .ok () m') :
    ∃ next : Machine, next.pending = rest ∧ next.isExecuting ∧
      next.frame.stack.elements = data :: m.frame.stack.elements ∧
      next.run { toEnv := env } = .ok () m' := by
  obtain ⟨next, hstep, h⟩ := run_cons_ok hp h
  obtain ⟨hrun, -⟩ := step_ok hstep
  have hnone : ({ m with pending := rest } : Machine).pendingHash? = none :=
    pendingHash?_eq_none hhash
  have hnext := pushed_of_pushData hrun hexec hnone hstack
  refine ⟨next, ?_, ?_, ?_, h⟩
  · rw [← hnext]
    rfl
  · rw [← hnext]
    exact hexec
  · rw [← hnext]
    rfl

end Machine

end CoinScript
