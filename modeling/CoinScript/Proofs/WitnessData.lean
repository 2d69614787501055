import CoinScript.Proofs.Unlocking
import CoinScript.Proofs.WitnessScript

/-!
# The use of the witness

The first witness program that is expanded takes the whole witness. From then on its elements wait to be
run, behind everything that was pending and in front of the script of the program, and no witness is
left for any other program. The main result says that the elements are run once each and in order, that
none is left if the evaluation succeeds, and that an evaluation cannot go on if it comes upon a program
for a script after another program.
-/

namespace CoinScript

/-- The element of the witness that an event says is next. -/
def Event.witness? : Event → Option Bytes
  | .witness data _ => some data
  | _ => none

/-- The element of the witness that an entry is. -/
def Entry.witness? : Entry → Option Bytes
  | .witness data => some data
  | .command _ => none

/-- What a program takes from the witness as data: all of it, or all but the script at its end. -/
def WitnessProgram.data (witness : List Bytes) : WitnessProgram → List Bytes
  | .pubKeyHash _ => witness
  | .scriptHash _ => witness.dropLast

/-- The witness data of an evaluation with these events: that of the first program that is expanded. -/
def witnessData (witness : List Bytes) (events : List Event) : List Bytes :=
  match events.findSome? Event.expanded? with
  | none => []
  | some program => program.data witness

/-- The data that an entry pushes, and whether the push is written in a script. -/
def Entry.pushed? : Entry → Option (Bool × Bytes)
  | .command (.push data) => some (true, data)
  | .command (.opcode _) => none
  | .witness data => some (false, data)

/-- The same environment without the rule on witness programs. -/
def Env.unexpanded (env : Env) : Env := { env with flags := { env.flags with witness := false } }

/-- The program that an entry comes upon: what is on the stack where the rule on witness programs is about
to apply, after the push and the rule on scripts given by their hash. -/
def Machine.programReached? (env : Env) (entry : Entry) (m : Machine) : Option WitnessProgram :=
  match entry.pushed? with
  | none => none
  | some (scripted, data) =>
    if env.flags.witness && m.isExecuting then
      match pushData env.unexpanded scripted data
        (m.reported (entryEvent m.frame.stack.length entry)) with
      | .ok _ next => witnessProgram? next.frame.stack
      | .error _ _ => none
    else none

theorem Machine.runEntry_of_pushed? {config : Config} {entry : Entry} {scripted : Bool} {data : Bytes}
    (h : entry.pushed? = some (scripted, data)) :
    runEntry config entry = pushData config.toEnv scripted data := by
  match entry with
  | .command (.push _) | .witness _ =>
    cases h
    rfl

namespace Machine

variable {config : Config} {env : Env} {m m' : Machine} {entry : Entry} {rest : List Entry}
  {event : Event} {witness : List Bytes} {n : Nat}

/-! ## Elements that have been run and that wait -/

/-- The elements of the witness that have been run, in order. -/
def used (m : Machine) : List Bytes := m.events.reverse.filterMap Event.witness?

/-- The elements of the witness that are still to be run, in order. -/
def waiting (m : Machine) : List Bytes := m.pending.filterMap Entry.witness?

/-- The program that was expanded first. -/
def firstProgram? (m : Machine) : Option WitnessProgram := m.events.reverse.findSome? Event.expanded?

theorem waiting_commands (script : Script) :
    (script.map Entry.command).filterMap Entry.witness? = [] := by
  rw [List.filterMap_eq_nil_iff]
  intro entry hentry
  obtain ⟨command, -, rfl⟩ := List.mem_map.1 hentry
  rfl

theorem waiting_elements (elements : List Bytes) :
    (elements.map Entry.witness).filterMap Entry.witness? = elements := by
  rw [List.filterMap_map]
  exact List.filterMap_some

theorem used_of_cons (h : m'.events = event :: m.events) :
    m'.used = m.used ++ event.witness?.toList := by
  rw [used, h, List.reverse_cons, List.filterMap_append, used]
  cases hw : event.witness? <;> simp [hw]

theorem firstProgram?_of_cons (h : m'.events = event :: m.events) :
    m'.firstProgram? = m.firstProgram?.or event.expanded? := by
  rw [firstProgram?, h, List.reverse_cons, List.findSome?_append, List.findSome?_singleton,
    firstProgram?]

theorem waiting_of_append {elements : List Bytes} {script : Script}
    (h : m'.pending = m.pending ++ (elements.map .witness ++ script.map .command)) :
    m'.waiting = m.waiting ++ elements := by
  rw [waiting, h, List.filterMap_append, List.filterMap_append, waiting_elements, waiting_commands,
    List.append_nil, waiting]

theorem witness?_of_isChange (h : event.isChange) : event.witness? = none := by
  cases event <;> first | rfl | cases h

theorem used_of_reportsChanges (h : m.ReportsChanges m') : m'.used = m.used := by
  obtain ⟨events, hevents, hchanges⟩ := h
  have hnone : events.reverse.filterMap Event.witness? = [] := by
    rw [List.filterMap_eq_nil_iff]
    intro event hevent
    exact witness?_of_isChange (hchanges event (List.mem_reverse.1 hevent))
  rw [used, hevents, List.reverse_append, List.filterMap_append, hnone, List.append_nil, used]

theorem firstProgram?_of_reportsChanges {program : WitnessProgram} (h : m.ReportsChanges m')
    (hfirst : m.firstProgram? = some program) : m'.firstProgram? = some program := by
  obtain ⟨events, hevents, -⟩ := h
  have hbefore : m.events.reverse.findSome? Event.expanded? = some program := hfirst
  rw [firstProgram?, hevents, List.reverse_append, List.findSome?_append, hbefore, Option.some_or]

/-! ## What every step keeps -/

/-- As long as no program has been expanded, the witness is there and nothing of it has been run or
waits. From then on it has been taken, and what has been run and what waits make up the data. -/
inductive Uses (witness : List Bytes) (m : Machine) : Prop where
  | before (hfirst : m.firstProgram? = none) (hwitness : m.witness = witness) (hused : m.used = [])
      (hwaiting : m.waiting = [])
  | after {program : WitnessProgram} (hfirst : m.firstProgram? = some program)
      (hwitness : m.witness = []) (hdata : m.used ++ m.waiting = program.data witness)

theorem uses_start {script : Script} {limits : Limits} {pool : BufferPool} :
    Uses witness { start limits script witness with pool } :=
  .before rfl rfl rfl (waiting_commands script)

theorem Uses.congr (h : Uses witness m) (hused : m'.used = m.used) (hwaiting : m'.waiting = m.waiting)
    (hfirst : m'.firstProgram? = m.firstProgram?) (hwitness : m'.witness = m.witness) :
    Uses witness m' := by
  cases h with
  | before hfirst₀ hwitness₀ hused₀ hwaiting₀ =>
    exact .before (hfirst.trans hfirst₀) (hwitness.trans hwitness₀) (hused.trans hused₀)
      (hwaiting.trans hwaiting₀)
  | after hfirst₀ hwitness₀ hdata₀ =>
    refine .after (hfirst.trans hfirst₀) (hwitness.trans hwitness₀) ?_
    rw [hused, hwaiting]
    exact hdata₀

/-- An element that is next counts as run and no longer waits. -/
theorem uses_announced (hm : Uses witness m) (hp : m.pending = entry :: rest) (depth : Nat) :
    Uses witness (reported { m with pending := rest } (entryEvent depth entry)) := by
  have hused : (reported { m with pending := rest } (entryEvent depth entry)).used =
      m.used ++ entry.witness?.toList := by
    rw [used_of_cons (m := m) rfl]
    cases entry <;> rfl
  have hfirst : (reported { m with pending := rest } (entryEvent depth entry)).firstProgram? =
      m.firstProgram? := by
    rw [firstProgram?_of_cons (m := m) rfl]
    cases entry <;> exact Option.or_none
  have hwaiting : m.waiting = entry.witness?.toList ++ rest.filterMap Entry.witness? := by
    rw [waiting, hp]
    cases entry <;> rfl
  cases hm with
  | before hfirst₀ hwitness₀ hused₀ hwaiting₀ =>
    obtain ⟨hentry, hrest⟩ := List.append_eq_nil_iff.1 (hwaiting.symm.trans hwaiting₀)
    refine .before (hfirst.trans hfirst₀) hwitness₀ ?_ hrest
    rw [hused, hused₀, hentry, List.append_nil]
  | after hfirst₀ hwitness₀ hdata₀ =>
    refine .after (hfirst.trans hfirst₀) hwitness₀ ?_
    rw [hused, List.append_assoc]
    rw [hwaiting] at hdata₀
    exact hdata₀

/-- No element waits when a script is redeemed. -/
theorem uses_of_redeemed (hm : Uses witness m) (h : Redeemed m m') : Uses witness m' := by
  cases h with
  | nothing => exact hm
  | @script hash body rest script pool hpending =>
    have hwaiting : m.waiting = [] := by
      rw [waiting, pendingHash?_eq_some_iff.1 hpending, waiting_commands]
    refine hm.congr ?_ ?_ ?_ rfl
    · rw [used_of_cons (m := m) rfl]
      exact List.append_nil _
    · rw [hwaiting]
      exact waiting_commands script
    · rw [firstProgram?_of_cons (m := m) rfl]
      exact Option.or_none

/-- A program has its part of the witness wait. It finds any only if it is the first program. -/
theorem uses_of_expansion (program : WitnessProgram) (script : Script) (hm : Uses witness m)
    (hevents : m'.events = event :: m.events) (hexpanded : event.expanded? = some program)
    (hpending : m'.pending =
      m.pending ++ ((program.data m.witness).map .witness ++ script.map .command))
    (hwitness : m'.witness = []) : Uses witness m' := by
  have hused : m'.used = m.used := by
    rw [used_of_cons hevents]
    cases event <;> first | exact List.append_nil _ | cases hexpanded
  have hfirst : m'.firstProgram? = m.firstProgram?.or (some program) := by
    rw [firstProgram?_of_cons hevents, hexpanded]
  have hwaiting := waiting_of_append hpending
  cases hm with
  | before hfirst₀ hwitness₀ hused₀ hwaiting₀ =>
    have hnow : m'.firstProgram? = some program := by rw [hfirst, hfirst₀, Option.none_or]
    refine .after hnow hwitness ?_
    rw [hused, hused₀, hwaiting, hwaiting₀, hwitness₀, List.nil_append, List.nil_append]
  | @after first hfirst₀ hwitness₀ hdata₀ =>
    have hstill : m'.firstProgram? = some first := by rw [hfirst, hfirst₀, Option.some_or]
    -- The first program has taken the witness, so a later one adds nothing.
    have hnothing : program.data m.witness = [] := by
      rw [hwitness₀]
      cases program <;> rfl
    refine .after hstill hwitness ?_
    rw [hused, hwaiting, hnothing, List.append_nil]
    exact hdata₀

theorem uses_of_expanded (hm : Uses witness m) (h : Expanded m m') : Uses witness m' := by
  cases h with
  | nothing => exact hm
  | @key hash => exact uses_of_expansion (.pubKeyHash hash) (Script.p2pkh hash) hm rfl rfl rfl rfl
  | @script hash elements body script pool hstack hwitness =>
    refine uses_of_expansion (.scriptHash hash) script hm rfl rfl ?_ rfl
    rw [WitnessProgram.data, hwitness, List.dropLast_concat]

theorem uses_of_pushData {scripted : Bool} {data : Bytes} (hm : Uses witness m)
    (h : pushData env scripted data m = .ok () m') : Uses witness m' := by
  obtain ⟨-, ⟨-, rfl⟩ | ⟨-, m₁, hredeem, hexpand⟩⟩ := pushData_ok h
  · exact hm
  · have hpushed : Uses witness (m.pushed data) := hm.congr rfl rfl rfl rfl
    have hfirst : Uses witness m₁ := by
      rcases hredeem with ⟨-, hredeem⟩ | ⟨-, rfl⟩
      · exact uses_of_redeemed hpushed hredeem
      · exact hpushed
    rcases hexpand with ⟨-, hexpand⟩ | ⟨-, rfl⟩
    · exact uses_of_expanded hfirst hexpand
    · exact hfirst

theorem uses_of_step (hm : Uses witness m) (hp : m.pending = entry :: rest)
    (h : step config entry { m with pending := rest } = .ok () m') : Uses witness m' := by
  obtain ⟨hrun, -⟩ := step_ok h
  have hannounced := uses_announced hm hp m.frame.stack.length
  match entry with
  | .command (.push data) => exact uses_of_pushData hannounced hrun
  | .command (.opcode byte) =>
    obtain ⟨-, count, -, hdispatch⟩ := runOpcode_ok hrun
    rw [(dispatch_ok hdispatch).1]
    exact hannounced.congr rfl rfl rfl rfl
  | .witness data => exact uses_of_pushData hannounced hrun

theorem uses_after (hm : Uses witness m) (h : after? config n m = some m') : Uses witness m' :=
  after?_invariant (fun _ _ _ _ hp hstep hm => uses_of_step hm hp hstep) h hm

/-- What has been run is a first part of the data. -/
theorem Uses.used_prefix (hm : Uses witness m) (h : m.ReportsChanges m') :
    m'.used <+: witnessData witness m'.events.reverse := by
  rw [used_of_reportsChanges h]
  cases hm with
  | before hfirst hwitness hused hwaiting =>
    rw [hused]
    exact List.nil_prefix
  | @after program hfirst hwitness hdata =>
    have hprogram : m'.events.reverse.findSome? Event.expanded? = some program :=
      firstProgram?_of_reportsChanges h hfirst
    rw [witnessData, hprogram]
    simp only [← hdata]
    exact List.prefix_append _ _

/-- Once a program has been expanded, there is no witness left. -/
theorem Uses.witness_of_expanded (hm : Uses witness m)
    (h : ∃ event ∈ m.events, event.expanded?.isSome) : m.witness = [] := by
  cases hm with
  | after hfirst hwitness hdata => exact hwitness
  | before hfirst =>
    obtain ⟨event, hevent, hexpanded⟩ := h
    have hnone := List.findSome?_eq_none_iff.1 hfirst event (List.mem_reverse.2 hevent)
    rw [hnone] at hexpanded
    cases hexpanded

/-- If nothing is pending, all of the data has been run. -/
theorem Uses.used_eq (hm : Uses witness m) (hnil : m.pending = []) :
    m.used = witnessData witness m.events.reverse := by
  cases hm with
  | before hfirst hwitness hused hwaiting =>
    have hnone : m.events.reverse.findSome? Event.expanded? = none := hfirst
    rw [hused, witnessData, hnone]
  | @after program hfirst hwitness hdata =>
    have hprogram : m.events.reverse.findSome? Event.expanded? = some program := hfirst
    have hwaiting : m.waiting = [] := by
      rw [waiting, hnil]
      rfl
    rw [witnessData, hprogram]
    simp only [← hdata, hwaiting, List.append_nil]

/-! ## Further programs -/

/-- The rule on witness programs comes last in a push. -/
theorem pushData_of_unexpanded {scripted : Bool} {data : Bytes} (hflag : env.flags.witness)
    (hexec : m.isExecuting) (h : pushData env.unexpanded scripted data m = .ok () m') :
    pushData env scripted data m = expandWitness env.limits m' := by
  rw [pushData_eq] at h ⊢
  split at h
  · cases h
  · rename_i hsize
    rw [hexec] at h ⊢
    simp only [Bool.not_true, Bool.false_eq_true, if_false] at h ⊢
    split at h
    · cases h
    · rename_i hminimal
      obtain ⟨_, m₁, hpush, h⟩ := bind_eq_ok h
      obtain ⟨_, m₂, hredeem, h⟩ := bind_eq_ok h
      cases h
      have hlimits : ¬env.limits.maxElementSize < data.length := hsize
      have hneeded : ¬(scripted && env.flags.minimalData && !Element.needsPush data) = true := hminimal
      have hpush' : act (Action.push data) m = .ok () m₁ := hpush
      have hredeem' : onlyIf env.flags.p2sh (redeemPending env.limits) m₁ = .ok () m' := hredeem
      rw [if_neg hlimits, if_neg hneeded, bind_of_ok hpush', bind_of_ok hredeem', hflag]
      rfl

/-- Without the rule on witness programs a push leaves the witness. -/
theorem witness_of_unexpanded {scripted : Bool} {data : Bytes}
    (h : pushData env.unexpanded scripted data m = .ok () m') : m'.witness = m.witness := by
  obtain ⟨-, ⟨-, rfl⟩ | ⟨-, m₁, hredeem, ⟨hunset, -⟩ | ⟨-, rfl⟩⟩⟩ := pushData_ok h
  · rfl
  · cases hunset
  · rcases hredeem with ⟨-, hredeem⟩ | ⟨-, rfl⟩
    · cases hredeem <;> rfl
    · rfl

theorem expandWitness_of_empty {hash : Digest 32} (limits : Limits) (hwitness : m.witness = [])
    (hprogram : witnessProgram? m.frame.stack = some (.scriptHash hash)) :
    ∃ m', expandWitness limits m = .error .witnessProgramWitnessEmpty m' := by
  have hstack : m.frame.stack.elements = [hash.bytes, []] := elements_of_witnessProgram? hprogram
  rw [expandWitness_of_program (WitnessProgram.ofBytes?_scriptHash hash) hstack]
  simp only [expand, expandScript, takeWitness, bind, EStateM.bind, hwitness, List.getLast?_nil]
  exact ⟨_, rfl⟩

/-- Without a witness a program for a script cannot be expanded. -/
theorem step_of_programReached {hash : Digest 32} (hwitness : m.witness = [])
    (h : programReached? config.toEnv entry m = some (.scriptHash hash)) :
    ∃ m', step config entry m = .error .witnessProgramWitnessEmpty m' := by
  unfold programReached? at h
  split at h
  · cases h
  · rename_i scripted data hentry
    split at h
    · rename_i hrule
      obtain ⟨hflag, hexec⟩ := Bool.and_eq_true_iff.1 hrule
      split at h
      · rename_i next hnext
        have hempty : next.witness = [] := (witness_of_unexpanded hnext).trans hwitness
        obtain ⟨m', hfails⟩ := expandWitness_of_empty config.limits hempty h
        refine ⟨m', step_of_error ?_⟩
        have hannounced : (m.reported (entryEvent m.frame.stack.length entry)).isExecuting := hexec
        rw [runEntry_of_pushed? hentry, pushData_of_unexpanded hflag hannounced hnext]
        exact hfails
      · cases h
    · cases h

end Machine

/-! ## Evaluations -/

section Evaluation

variable {config : Config} {script : Script} {witness : List Bytes} {pool : BufferPool}

theorem Outcome.used_eq (outcome : Outcome) :
    outcome.events.filterMap Event.witness? = outcome.machine.used := by
  unfold events
  rw [List.reverse_cons, List.filterMap_append]
  cases outcome.result <;> exact List.append_nil _

theorem Outcome.witnessData_eq (outcome : Outcome) :
    witnessData witness outcome.events = witnessData witness outcome.machine.events.reverse := by
  have hfirst : outcome.events.findSome? Event.expanded? =
      outcome.machine.events.reverse.findSome? Event.expanded? := by
    unfold events
    rw [List.reverse_cons, List.findSome?_append]
    cases outcome.result <;> exact Option.or_none
  rw [witnessData, hfirst, witnessData]

/-- An evaluation ends at most one failing step behind a machine that keeps to the rules on the witness,
and right at it, with nothing pending, if it succeeds. -/
theorem uses_of_evaluateWith :
    ∃ m, Machine.Uses witness m ∧
      m.ReportsChanges (evaluateWith config script witness pool).machine ∧
      ((evaluateWith config script witness pool).result = .ok () →
        m = (evaluateWith config script witness pool).machine ∧ m.pending = []) := by
  by_cases hsize : config.limits.maxCommands < script.length
  · rw [evaluateWith_of_oversized config hsize]
    refine ⟨_, .before rfl rfl rfl rfl, .refl _, ?_⟩
    intro hresult
    cases hresult
  · rw [evaluateWith_of_fits config (Nat.le_of_not_lt hsize)]
    obtain ⟨n, -, last, hafter, hstops⟩ := Machine.run_stops config
      { Machine.start config.limits script witness with pool }
    have hlast := Machine.uses_after Machine.uses_start hafter
    generalize Machine.run config { Machine.start config.limits script witness with pool } = ending
      at hstops ⊢
    cases hstops with
    | finished hnil =>
      refine ⟨last, hlast, ?_, ?_⟩
      · cases hfinish : Machine.finish last with
        | ok _ m' =>
          obtain ⟨rfl, -⟩ := Machine.finish_ok hfinish
          exact .refl _
        | error e m' =>
          obtain rfl := Machine.finish_error hfinish
          exact .refl _
      · cases hfinish : Machine.finish last with
        | ok _ m' =>
          obtain ⟨rfl, -⟩ := Machine.finish_ok hfinish
          exact fun _ => ⟨rfl, hnil⟩
        | error e m' =>
          intro hresult
          cases hresult
    | @failed m' entry rest e hp hstep =>
      -- The step has begun with its entry, and it may have reported a program that does not fit.
      have hreports := Machine.reportsChanges_of_step config entry { last with pending := rest }
      rw [Machine.left, hstep] at hreports
      refine ⟨_, Machine.uses_announced hlast hp last.frame.stack.length, hreports, ?_⟩
      intro hresult
      cases hresult

end Evaluation

/-- The elements of the witness are run once each and in order: those that have been run are a first part
of the witness if the first program that was expanded is for a key, of the witness without its last
element if it is for a script, and there are none without a program. If the evaluation succeeds, all of
these have been run. And once a program has been expanded, the evaluation fails for want of a witness
where it comes upon a program for a script. -/
theorem witness_used_once (config : Config) (script : Script) (witness : List Bytes)
    (pool : BufferPool) :
    let outcome := evaluateWith config script witness pool
    outcome.events.filterMap Event.witness? <+: witnessData witness outcome.events ∧
      (outcome.result = .ok () →
        outcome.events.filterMap Event.witness? = witnessData witness outcome.events) ∧
      ∀ n m entry rest hash, Machine.reached? config script witness pool n = some m →
        m.pending = entry :: rest → (∃ event ∈ m.events, event.expanded?.isSome) →
        Machine.programReached? config.toEnv entry { m with pending := rest } =
          some (.scriptHash hash) →
        outcome.result = .error .witnessProgramWitnessEmpty := by
  intro outcome
  obtain ⟨m, huses, hreports, hsuccess⟩ : ∃ m, Machine.Uses witness m ∧
      m.ReportsChanges outcome.machine ∧
      (outcome.result = .ok () → m = outcome.machine ∧ m.pending = []) := uses_of_evaluateWith
  rw [outcome.used_eq, outcome.witnessData_eq]
  refine ⟨huses.used_prefix hreports, ?_, ?_⟩
  · intro hresult
    obtain ⟨rfl, hnil⟩ := hsuccess hresult
    exact huses.used_eq hnil
  · intro n reached entry rest hash hreached hp hexpanded hprogram
    obtain ⟨hsize, hafter⟩ := Machine.reached?_eq_some hreached
    have hempty : ({ reached with pending := rest } : Machine).witness = [] :=
      (Machine.uses_after Machine.uses_start hafter).witness_of_expanded hexpanded
    obtain ⟨m', hstep⟩ := Machine.step_of_programReached hempty hprogram
    have hrun := Machine.run_of_after? hafter
    rw [Machine.run_of_cons hp, hstep] at hrun
    simp only [outcome, evaluateWith_of_fits config hsize, hrun]

/-- The witness of a program for a script is compared with itself, and all of it has been run then. In
another evaluation the witness puts a second such program on the stack. -/
theorem witness_used_once_nested :
    let config : Config := { flags := { witness := true }, sighash := sha256 [] }
    let accepted := evaluateWith config (Script.p2wsh (sha256 [0x87])) [[0x2a], [0x2a], [0x87]] .empty
    (accepted.result = .ok () ∧ accepted.events.filterMap Event.witness? = [[0x2a], [0x2a]]) ∧
      (evaluateWith config (Script.p2wsh (sha256 [0x51]))
        [[], List.replicate 32 0x00, [0x51]] .empty).result = .error .witnessProgramWitnessEmpty := by
  intro config accepted
  constructor
  · obtain ⟨hresult, hdata⟩ : accepted.result = .ok () ∧
        witnessData [[0x2a], [0x2a], [0x87]] accepted.events = [[0x2a], [0x2a]] :=
      evaluateWith_of_runIn (fun outcome => outcome.result = .ok () ∧
        witnessData [[0x2a], [0x2a], [0x87]] outcome.events = [[0x2a], [0x2a]]) 8
        (by decide) (by decide +kernel)
    exact ⟨hresult, ((witness_used_once _ _ _ _).2.1 hresult).trans hdata⟩
  · have hreached : (Machine.reached? config (Script.p2wsh (sha256 [0x51]))
        [[], List.replicate 32 0x00, [0x51]] .empty 3).any fun m =>
          m.events.any (·.expanded?.isSome) &&
          m.pending == [.witness (List.replicate 32 0x00), .command (.ofOpcode .op1)] &&
          Machine.programReached? config.toEnv
            (.witness (List.replicate 32 0x00)) { m with pending := [.command (.ofOpcode .op1)] } ==
            some (.scriptHash ⟨List.replicate 32 0x00, rfl⟩) := by decide +kernel
    obtain ⟨m, hm, hall⟩ := (Option.any_eq_true _ _).1 hreached
    simp only [Bool.and_eq_true, List.any_eq_true, beq_iff_eq] at hall
    obtain ⟨⟨hexpanded, hp⟩, hprogram⟩ := hall
    exact (witness_used_once _ _ _ _).2.2 3 m _ _ _ hm hp hexpanded hprogram

end CoinScript
