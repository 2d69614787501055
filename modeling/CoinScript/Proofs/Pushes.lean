import CoinScript.Proofs.Alike
import CoinScript.Proofs.Commands

/-!
# Scripts that only push

What a script that only pushes does can be read off its commands: each of them puts one element on the
stack or fails, whatever is pending behind it. That is, unless a push makes one of the two rules apply
that change the program. The main result is the verdict on a machine that has such a script to run
first.
-/

namespace CoinScript

/-! ## Single commands -/

/-- The element that a command of a script that only pushes puts on the stack. -/
def Command.pushed (env : Env) : Command → Except EvalError Bytes
  | .push data =>
    if env.limits.maxElementSize < data.length then .error .pushSize
    else if env.flags.minimalData && !Element.needsPush data then .error .minimalData
    else .ok data
  | .opcode byte =>
    match OpcodeTable.standard.handler? byte with
    | some .pushEmpty => .ok []
    | some .pushConstant => .ok (ScriptNum.encode (Action.constantOf byte))
    | _ => .error (.unknownOpcode byte)

/-- The opcodes among the pushes are neither forbidden nor counted nor flow control. If one has a
handler at all, it pushes at most one byte. -/
theorem Command.opcode_of_isPush : ∀ byte, (Command.opcode byte).isPush →
    Machine.forbidden? byte = none ∧ Opcode.isCounted byte = false ∧
      (Command.opcode byte).isStraight ∧
      OpcodeTable.standard.handler? byte ∈ [none, some .pushEmpty, some .pushConstant] ∧
      (ScriptNum.encode (Action.constantOf byte)).length ≤ 1 :=
  forall_byte (by decide +kernel)

theorem Command.isStraight_of_isPush {command : Command} (h : command.isPush) :
    command.isStraight := by
  cases command with
  | push data => rfl
  | opcode byte => exact (Command.opcode_of_isPush byte h).2.2.1

/-- What is pushed is the data of a push, or it is short. -/
theorem Command.pushed_ok {env : Env} {command : Command} {data : Bytes} (hpush : command.isPush)
    (h : command.pushed env = .ok data) : command = .push data ∨ data.length ≤ 1 := by
  cases command with
  | push other =>
    simp only [Command.pushed] at h
    split at h
    · cases h
    · split at h
      · cases h
      · cases h
        exact .inl rfl
  | opcode byte =>
    right
    simp only [Command.pushed] at h
    split at h
    · cases h
      exact Nat.zero_le _
    · cases h
      exact (Command.opcode_of_isPush byte hpush).2.2.2.2
    · cases h

/-- The elements that a script that only pushes puts on the stack, the first one first. -/
def Script.pushed (env : Env) (script : Script) : Except EvalError (List Bytes) :=
  script.mapM (Command.pushed env)

theorem Script.pushed_cons (env : Env) (command : Command) (script : Script) :
    Script.pushed env (command :: script) = do
      let data ← command.pushed env
      let elements ← Script.pushed env script
      return data :: elements := by
  rw [Script.pushed, List.mapM_cons]
  rfl

/-- Every command pushes one element. -/
theorem Script.pushed_ok {env : Env} {script : Script} {elements : List Bytes}
    (hpush : script.isPushOnly) (h : script.pushed env = .ok elements) :
    elements.length = script.length ∧
      ∀ data ∈ elements, .push data ∈ script ∨ data.length ≤ 1 := by
  induction script generalizing elements with
  | nil =>
    cases h
    simp
  | cons command script ih =>
    simp only [Script.isPushOnly, List.all_cons, Bool.and_eq_true] at hpush
    rw [Script.pushed_cons] at h
    cases hfirst : command.pushed env with
    | error e =>
      rw [hfirst] at h
      cases h
    | ok first =>
      cases hrest : Script.pushed env script with
      | error e =>
        rw [hfirst, hrest] at h
        cases h
      | ok rest =>
        rw [hfirst, hrest] at h
        cases h
        obtain ⟨hlength, hmem⟩ := ih hpush.2 hrest
        refine ⟨by simp [hlength], ?_⟩
        intro data hdata
        rcases List.mem_cons.1 hdata with rfl | hdata
        · refine (Command.pushed_ok hpush.1 hfirst).imp_left ?_
          rintro rfl
          exact List.mem_cons_self
        · exact (hmem data hdata).imp_left (List.mem_cons_of_mem _)

namespace Machine

variable {env : Env} {command : Command} {m : Machine}

/-! ## Pushes that change nothing else -/

theorem bind_of_ok {α β : Type} {x : Step α} {f : α → Step β} {a : α} {m' : Machine}
    (h : x m = .ok a m') : (x >>= f) m = f a m' := by
  simp only [bind, EStateM.bind, h]

theorem act_push_of_room {data : Bytes} (h : m.frame.stack.length < m.frame.stack.capacity) :
    act (Action.push data) m = .ok () (m.pushed data) := by
  simp only [act, Action.push, Action.alter, Action.take, Stack.push_eq, if_pos h, Except.map]
  rfl

theorem redeemPending_of_none {limits : Limits} {condition : Bool}
    (h : condition → m.pendingHash? = none) :
    onlyIf condition (redeemPending limits) m = .ok () m := by
  unfold onlyIf
  split
  · rename_i hcondition
    rw [redeemPending_eq, h hcondition]
  · rfl

theorem expandWitness_of_none {limits : Limits} {condition : Bool}
    (h : condition → witnessProgram? m.frame.stack = none) :
    onlyIf condition (expandWitness limits) m = .ok () m := by
  unfold onlyIf
  split
  · rename_i hcondition
    rw [expandWitness_eq, h hcondition]
  · rfl

/-- A stack is a witness program only if its top has the size of one. -/
theorem witnessProgram?_of_size {data : Bytes} {rest : List Bytes} {capacity : Nat}
    (h : data.length ≠ 20 ∧ data.length ≠ 32) :
    witnessProgram? (.ofList (data :: rest) capacity) = none := by
  unfold witnessProgram?
  split
  · rename_i hs
    simp only [Stack.elements_ofList, List.cons.injEq] at hs
    rw [← hs.1]
    simp [WitnessProgram.ofBytes?, Digest.ofBytes?, h.1, h.2]
  · rfl

/-- A command that only pushes does no more than that, if it makes no rule apply. -/
theorem runEntry_of_isPush (hpush : command.isPush) (hexec : m.isExecuting)
    (hhash : env.flags.p2sh → m.pendingHash? = none)
    (hprogram : env.flags.witness → ∀ data, command = .push data →
      data.length ≠ 20 ∧ data.length ≠ 32)
    (hroom : m.frame.stack.length < m.frame.stack.capacity) :
    runEntry { toEnv := env } (.command command) m =
      match command.pushed env with
      | .error e => .error e m
      | .ok data => .ok () (m.pushed data) := by
  cases command with
  | push data =>
    simp only [runEntry, pushData_eq, Command.pushed, hexec, Bool.not_true, Bool.true_and]
    split
    · rfl
    · rw [if_neg Bool.false_ne_true]
      split
      · rfl
      · have hhash' : env.flags.p2sh → (m.pushed data).pendingHash? = none := hhash
        rw [bind_of_ok (act_push_of_room hroom), bind_of_ok (redeemPending_of_none hhash')]
        refine expandWitness_of_none fun hwitness => ?_
        exact witnessProgram?_of_size (hprogram hwitness data rfl)
  | opcode byte =>
    obtain ⟨hforbidden, hcounted, -, hhandler, -⟩ := Command.opcode_of_isPush byte hpush
    have hrun : runOpcode { toEnv := env } byte m = execute { toEnv := env } byte m := by
      rw [← dispatch_of_isStraight (Command.isStraight_of_isPush hpush)]
      simp only [runOpcode, hforbidden, hcounted, onlyIf, if_neg Bool.false_ne_true]
      rfl
    simp only [runEntry, hrun, execute_eq, hexec, if_true, Command.pushed]
    simp only [List.mem_cons, List.not_mem_nil, or_false] at hhandler
    rcases hhandler with h | h | h <;> rw [h]
    · exact act_push_of_room hroom
    · exact act_push_of_room hroom

/-- In front of a script that only pushes no hash is compared. -/
theorem pendingHash?_of_pushes {script : Script} {tail : List Entry} (hpush : script.isPushOnly)
    (htail : ∀ hash, tail ≠ (Script.p2sh hash).map .command)
    (hpending : m.pending = script.map .command ++ tail) : m.pendingHash? = none := by
  apply pendingHash?_eq_none
  intro hash h
  rw [hpending] at h
  cases script with
  | nil => exact htail hash h
  | cons command script =>
    simp only [Script.p2sh, List.map_cons, List.cons_append, List.cons.injEq,
      Entry.command.injEq] at h
    rw [h.1] at hpush
    cases hpush

/-- A command that only pushes, where it makes no rule apply: it is reported, and its element is put on the
stack, or it fails. -/
theorem step_of_isPush (hpush : command.isPush) (hexec : m.isExecuting)
    (hhash : env.flags.p2sh → m.pendingHash? = none)
    (hprogram : env.flags.witness → ∀ data, command = .push data →
      data.length ≠ 20 ∧ data.length ≠ 32)
    (hstack : m.frame.stack.length < m.frame.stack.capacity)
    (hroom : m.frame.size < env.limits.maxStackSize) :
    step { toEnv := env } (.command command) m =
      match command.pushed env with
      | .error e => .error e (m.reported (entryEvent m.frame.stack.length (.command command)))
      | .ok data =>
        .ok () ((m.reported (entryEvent m.frame.stack.length (.command command))).pushed data) := by
  let event := entryEvent m.frame.stack.length (.command command)
  have hrun := runEntry_of_isPush (m := m.reported event) hpush hexec hhash hprogram hstack
  cases hpushed : command.pushed env with
  | error e =>
    rw [hpushed] at hrun
    exact step_of_error hrun
  | ok data =>
    rw [hpushed] at hrun
    refine step_of_ok hrun ?_
    simp only [pushed, reported, Frame.size, Stack.length_ofList, List.length_cons] at hroom ⊢
    rw [m.frame.stack.length_eq] at hroom
    omega

/-- The machine with more elements on its stack, the first of them lowest, and other entries to run. -/
def loaded (m : Machine) (elements : List Bytes) (pending : List Entry) : Machine :=
  { m with
    frame := { m.frame with
      stack := .ofList (elements.reverse ++ m.frame.stack.elements) m.frame.stack.capacity }
    pending }

/-- A machine that has a script to run first that only pushes fails as the script does, or goes on with
the elements of the script on its stack. -/
theorem verdict_of_pushes {script : Script} {tail : List Entry} (hpush : script.isPushOnly)
    (htail : ∀ hash, tail ≠ (Script.p2sh hash).map .command)
    (hprogram : env.flags.witness → ∀ data, .push data ∈ script →
      data.length ≠ 20 ∧ data.length ≠ 32)
    (hpending : m.pending = script.map .command ++ tail) (hexec : m.isExecuting)
    (hcapacity : m.frame.stack.capacity = env.limits.maxStackSize)
    (hroom : m.frame.size + script.length ≤ env.limits.maxStackSize) :
    m.verdict { toEnv := env } = match script.pushed env with
      | .error e => .error e.code
      | .ok elements => (m.loaded elements tail).verdict { toEnv := env } := by
  induction script generalizing m with
  | nil =>
    simp only [List.map_nil, List.nil_append] at hpending
    subst hpending
    simp [Script.pushed, pure, Except.pure, loaded]
  | cons command script ih =>
    simp only [Script.isPushOnly, List.all_cons, Bool.and_eq_true] at hpush
    simp only [List.map_cons, List.cons_append] at hpending
    simp only [List.length_cons] at hroom
    let next : Machine := { m with pending := script.map .command ++ tail }
    have hhash : next.pendingHash? = none := pendingHash?_of_pushes hpush.2 htail rfl
    have hstack : next.frame.stack.length < next.frame.stack.capacity := by
      simp only [next, hcapacity]
      unfold Frame.size at hroom
      omega
    have hstep := step_of_isPush (m := next) hpush.1 hexec (fun _ => hhash)
      (fun hwitness data hdata => hprogram hwitness data (hdata ▸ List.mem_cons_self)) hstack
      (by simp only [next]; omega)
    rw [Script.pushed_cons]
    cases hfirst : command.pushed env with
    | error e =>
      rw [hfirst] at hstep
      exact verdict_of_step_error hpending hstep
    | ok data =>
      rw [hfirst] at hstep
      let event := entryEvent next.frame.stack.length (.command command)
      have hsize : ((next.reported event).pushed data).frame.size = m.frame.size + 1 := by
        simp only [pushed, reported, Frame.size, next, Stack.length_ofList, List.length_cons,
          m.frame.stack.length_eq]
        omega
      have hnext := ih (m := (next.reported event).pushed data) hpush.2
        (fun hwitness other hother => hprogram hwitness other (List.mem_cons_of_mem _ hother)) rfl
        hexec hcapacity (by omega)
      rw [verdict_of_step_ok hpending hstep, hnext]
      cases hrest : Script.pushed env script with
      | error e => rfl
      | ok elements =>
        -- Only the events differ: the first command has been reported.
        refine verdict_eq_of_alike ⟨⟨m.frame.asked, ?_⟩, Entry.alike_of_eq rfl, rfl, rfl⟩
        simp [loaded, next, pushed, reported]

end Machine

/-- The verdict on an unlocking script that only pushes, without making a rule apply. -/
theorem verifyScript_of_pushes {flags : Flags} {checker : Checker} {sighash : Digest 32}
    {args scriptPubKey : Script} {witness : List Bytes} (hpush : args.isPushOnly)
    (hcount : args.length ≤ 1000) (hsize : scriptPubKey.length ≤ 1000)
    (hhash : ∀ hash, scriptPubKey ≠ Script.p2sh hash)
    (hprogram : flags.witness → ∀ data, .push data ∈ args → data.length ≠ 20 ∧ data.length ≠ 32) :
    verifyScript flags checker sighash args scriptPubKey witness =
      match args.pushed { flags, checker, sighash } with
      | .error e => .error e.code
      | .ok elements =>
        ((Machine.start {} [] witness).loaded elements (scriptPubKey.map .command)).verdict
          { flags, checker, sighash } := by
  have hfits : (args ++ scriptPubKey).length ≤ ({} : Limits).maxCommands := by
    simp only [List.length_append, Script.maxScriptSize]
    omega
  rw [verifyScript_of_isPushOnly hpush hfits]
  apply Machine.verdict_of_pushes hpush _ hprogram
  · simp [Machine.start]
  · rfl
  · rfl
  · simpa [Machine.start, Machine.initial, Frame.size, Frame.new, Stack.new] using hcount
  · intro hash h
    rw [List.map_inj_right (by simp)] at h
    exact hhash hash h

end CoinScript
