import CoinScript.Eval.Primitives
import CoinScript.Proofs.Plain

/-!
# Balanced conditionals

Which arms of a conditional run depends on the data, but where it begins and ends does not. So the number
of conditionals that are open can be told from the commands alone, and it is the same whether they are
executed or skipped. The main result draws the conclusion for whole scripts: only a balanced one can
succeed, and one that is balanced fails as unbalanced only if a condition is missing.
-/

namespace CoinScript

/-! ## Depths -/

/-- How many conditionals are open after a command, if there are `depth` before it. A command that goes to
the other arm of a conditional or closes it needs an open one. -/
def Command.nextDepth? (depth : Nat) : Command → Option Nat
  | .push _ => some depth
  | .opcode byte =>
    match Opcode.ofByte? byte with
    | some .opIf | some .opNotIf => some (depth + 1)
    | some .opElse => if depth = 0 then none else some depth
    | some .opEndIf => if depth = 0 then none else some (depth - 1)
    | _ => some depth

/-- How many conditionals are open after the commands of a script. -/
def Script.depth? (depth : Nat) (script : Script) : Option Nat :=
  script.foldlM Command.nextDepth? depth

/-- Whether every conditional that a script opens is closed, and no other is changed. -/
def Script.isBalanced (script : Script) : Bool := script.depth? 0 == some 0

theorem Command.nextDepth?_of_isStraight {c : Command} (h : c.isStraight) (depth : Nat) :
    c.nextDepth? depth = some depth := by
  cases c with
  | push data => rfl
  | opcode byte =>
    simp only [isStraight] at h
    simp only [nextDepth?]
    split <;> simp_all

theorem Script.depth?_cons (depth : Nat) (c : Command) (script : Script) :
    depth? depth (c :: script) = c.nextDepth? depth >>= fun depth => depth? depth script := rfl

theorem Script.depth?_append (depth : Nat) (first second : Script) :
    depth? depth (first ++ second) = depth? depth first >>= fun depth => depth? depth second :=
  List.foldlM_append

theorem Branches.length_flip? (branches : Branches) :
    branches.flip?.map (·.arms.length) =
      if branches.arms.length = 0 then none else some branches.arms.length := by
  rw [← branches.ofList_arms]
  cases branches.arms with
  | nil => rfl
  | cons arm rest =>
    rw [flip?_ofList_cons]
    rfl

theorem Branches.length_leave? (branches : Branches) :
    branches.leave?.map (·.arms.length) =
      if branches.arms.length = 0 then none else some (branches.arms.length - 1) := by
  rw [← branches.ofList_arms]
  cases branches.arms with
  | nil => rfl
  | cons arm rest =>
    rw [leave?_ofList_cons]
    rfl

namespace Plain

variable {config : Config} {s t : Plain} {c : Command} {byte : UInt8} {e : EvalError}

/-- The number of open conditionals. -/
def depth (s : Plain) : Nat := s.branches.arms.length

/-! ## Steps that succeed -/

theorem branches_of_openBranch {expected : Bool} (h : s.openBranch expected = .ok t) :
    ∃ runs, t.branches = .ofList (runs :: s.branches.arms) := by
  unfold openBranch at h
  split at h
  · split at h
    · cases h
    · cases h
      exact ⟨_, Branches.enter_eq _ _⟩
  · cases h
    exact ⟨false, Branches.enter_eq false s.branches⟩

theorem branches_of_alterBranch {f : Branches → Option Branches} (h : s.alterBranch f = .ok t) :
    f s.branches = some t.branches := by
  unfold alterBranch at h
  split at h
  · cases h
  · rename_i branches hf
    cases h
    exact hf

theorem count_eq (limits : Limits) (byte : UInt8) (s : Plain) :
    s.count limits byte =
      if Opcode.isCounted byte = true ∧ limits.maxOps < s.opCount + 1 then .error .opCount
      else .ok { s with opCount := s.opCount + (Opcode.isCounted byte).toNat } := by
  have hcharge : Action.charge limits 1 s.frame =
      if limits.maxOps < s.opCount + 1 then .error .opCount { s.frame with opCount := s.opCount + 1 }
      else .ok () { s.frame with opCount := s.opCount + 1 } := rfl
  rw [count, act, hcharge]
  cases Opcode.isCounted byte with
  | false => simp
  | true =>
    by_cases hops : limits.maxOps < s.opCount + 1
    · simp [hops]
    · simp [hops, frame]

theorem count_eq_ok {limits : Limits} (h : s.count limits byte = .ok t) :
    ∃ opCount, t = { s with opCount } := by
  rw [count_eq] at h
  split at h
  · cases h
  · cases h
    exact ⟨_, rfl⟩

theorem depth_of_dispatch (h : s.dispatch config byte = .ok t) :
    (Command.opcode byte).nextDepth? s.depth = some t.depth := by
  cases hstraight : (Command.opcode byte).isStraight with
  | true =>
    rw [dispatch_of_isStraight hstraight] at h
    rw [Command.nextDepth?_of_isStraight hstraight, depth, depth, branches_of_execute h]
  | false =>
    unfold dispatch at h
    unfold Command.nextDepth?
    rcases Command.flowControl_of_isStraight hstraight with hop | hop | hop | hop <;>
      simp only [hop] at h ⊢
    · obtain ⟨runs, hbranches⟩ := branches_of_openBranch h
      simp [depth, hbranches]
    · obtain ⟨runs, hbranches⟩ := branches_of_openBranch h
      simp [depth, hbranches]
    · have hdepth := s.branches.length_flip?
      rw [branches_of_alterBranch h] at hdepth
      exact hdepth.symm
    · have hdepth := s.branches.length_leave?
      rw [branches_of_alterBranch h] at hdepth
      exact hdepth.symm

/-- A step changes the number of open conditionals as its command says. -/
theorem depth_of_step (h : s.step config c = .ok t) : c.nextDepth? s.depth = some t.depth := by
  obtain ⟨next, hnext, h⟩ := bind_eq_ok h
  unfold checkSize at h
  split at h
  · cases h
  · cases h
    cases c with
    | push data =>
      rw [depth, depth, branches_of_push hnext]
      rfl
    | opcode byte =>
      simp only [command, opcode] at hnext
      split at hnext
      · cases hnext
      · obtain ⟨counted, hcounted, hdispatch⟩ := bind_eq_ok hnext
        obtain ⟨opCount, rfl⟩ := count_eq_ok hcounted
        have hdepth := depth_of_dispatch hdispatch
        exact hdepth

theorem depth_of_steps {script : Script} (h : s.steps config script = .ok t) :
    script.depth? s.depth = some t.depth := by
  induction script generalizing s with
  | nil =>
    cases h
    rfl
  | cons c script ih =>
    obtain ⟨next, hstep, h⟩ := bind_eq_ok h
    rw [Script.depth?_cons, depth_of_step hstep]
    exact ih h

/-! ## Steps that fail -/

/-- A condition is missing: the command is executed and opens a conditional, and the stack is empty. -/
structure LacksCondition (c : Command) (s : Plain) : Prop where
  opens : c = .ofOpcode .opIf ∨ c = .ofOpcode .opNotIf
  isExecuting : s.isExecuting
  stack_eq : s.stack.elements = []

theorem bind_eq_error {α β : Type} {x : Except EvalError α} {f : α → Except EvalError β}
    (h : x >>= f = .error e) : x = .error e ∨ ∃ a, x = .ok a ∧ f a = .error e := by
  cases x with
  | ok a => exact .inr ⟨a, rfl, h⟩
  | error e' =>
    cases h
    exact .inl rfl

theorem isOfHandler_of_act {env : Env} {x : Action Unit} (hx : Action.Composed env x)
    (h : s.act x = .error e) : e.isOfHandler := by
  unfold act at h
  split at h
  · cases h
  · rename_i hfailed
    cases h
    exact Action.isOfHandler_of_composed hx hfailed

theorem isOfHandler_of_execute (h : s.execute config byte = .error e) : e.isOfHandler := by
  unfold execute at h
  split at h
  · split at h
    · cases h
      rfl
    · exact isOfHandler_of_act (Handler.composed_run config.toEnv byte _) h
  · cases h

theorem not_unbalanced_of_count {limits : Limits} :
    s.count limits byte ≠ .error .unbalancedConditional := by
  rw [count_eq]
  split <;> exact nofun

theorem not_unbalanced_of_push {env : Env} {data : Bytes} :
    s.push env data ≠ .error .unbalancedConditional := by
  intro h
  unfold push at h
  split at h
  · cases h
  · split at h
    · cases h
    · split at h
      · cases h
      · have hpush : Action.Composed env (Action.push data) := Action.composed_alter _
        cases isOfHandler_of_act hpush h

theorem stack_of_openBranch {expected : Bool} (h : s.openBranch expected = .error e) :
    s.isExecuting ∧ s.stack.elements = [] := by
  unfold openBranch at h
  split at h
  · rename_i hexec
    refine ⟨hexec, ?_⟩
    cases hstack : s.stack.elements with
    | nil => rfl
    | cons top rest =>
      rw [Stack.pop_of_cons hstack] at h
      cases h
  · cases h

theorem alterBranch_eq_error {f : Branches → Option Branches} (h : s.alterBranch f = .error e) :
    f s.branches = none := by
  unfold alterBranch at h
  split at h
  · rename_i hf
    exact hf
  · cases h

theorem unbalanced_of_dispatch (h : s.dispatch config byte = .error .unbalancedConditional) :
    (Command.opcode byte).nextDepth? s.depth = none ∨ LacksCondition (.opcode byte) s := by
  cases hstraight : (Command.opcode byte).isStraight with
  | true =>
    rw [dispatch_of_isStraight hstraight] at h
    cases isOfHandler_of_execute h
  | false =>
    have hbyte {op : Opcode} (hop : Opcode.ofByte? byte = some op) :
        Command.opcode byte = .ofOpcode op := by
      rw [Command.ofOpcode, Opcode.byte_of_ofByte? hop]
    unfold dispatch at h
    rcases Command.flowControl_of_isStraight hstraight with hop | hop | hop | hop <;>
      simp only [hop] at h
    · obtain ⟨hexec, hstack⟩ := stack_of_openBranch h
      exact .inr ⟨.inl (hbyte hop), hexec, hstack⟩
    · obtain ⟨hexec, hstack⟩ := stack_of_openBranch h
      exact .inr ⟨.inr (hbyte hop), hexec, hstack⟩
    · have hdepth := s.branches.length_flip?
      rw [alterBranch_eq_error h] at hdepth
      simp only [Command.nextDepth?, hop]
      exact .inl hdepth.symm
    · have hdepth := s.branches.length_leave?
      rw [alterBranch_eq_error h] at hdepth
      simp only [Command.nextDepth?, hop]
      exact .inl hdepth.symm

theorem not_unbalanced_of_forbidden : Machine.forbidden? byte ≠ some .unbalancedConditional := by
  unfold Machine.forbidden?
  split
  · exact nofun
  · split <;> exact nofun

/-- A step fails as unbalanced if the command needs an open conditional and there is none, or if there is
no condition for the conditional that it opens. -/
theorem unbalanced_of_step (h : s.step config c = .error .unbalancedConditional) :
    c.nextDepth? s.depth = none ∨ LacksCondition c s := by
  rcases bind_eq_error h with h | ⟨next, -, hsize⟩
  · cases c with
    | push data => exact absurd h not_unbalanced_of_push
    | opcode byte =>
      simp only [command, opcode] at h
      split at h
      · rename_i hforbidden
        cases h
        exact absurd hforbidden not_unbalanced_of_forbidden
      · rcases bind_eq_error h with hcount | ⟨counted, hcounted, hdispatch⟩
        · exact absurd hcount not_unbalanced_of_count
        · obtain ⟨opCount, rfl⟩ := count_eq_ok hcounted
          exact (unbalanced_of_dispatch hdispatch).imp_right fun h => ⟨h.opens, h.isExecuting, h.stack_eq⟩
  · unfold checkSize at hsize
    split at hsize <;> cases hsize

/-- The commands in front of the one that fails succeed. -/
theorem steps_eq_error {script : Script} (h : s.steps config script = .error e) :
    ∃ front c back t, script = front ++ c :: back ∧ s.steps config front = .ok t ∧
      t.step config c = .error e := by
  induction script generalizing s with
  | nil => cases h
  | cons c script ih =>
    rcases bind_eq_error h with hstep | ⟨next, hstep, hothers⟩
    · exact ⟨[], c, script, s, rfl, rfl, hstep⟩
    · obtain ⟨front, c', back, t, rfl, hfront, hfailed⟩ := ih hothers
      refine ⟨c :: front, c', back, t, rfl, ?_, hfailed⟩
      rw [steps_cons, hstep]
      exact hfront

theorem depth_of_finish (h : s.finish = .error .unbalancedConditional) : s.depth ≠ 0 := by
  intro hclosed
  have hempty : s.branches.isEmpty = true := List.isEmpty_iff.2 (List.length_eq_zero_iff.1 hclosed)
  unfold finish at h
  rw [hempty] at h
  simp only [Bool.not_true, Bool.false_eq_true, if_false] at h
  split at h
  · split at h <;> cases h
  · cases h

/-- A run that succeeds has closed all conditionals that were open. -/
theorem depth_of_run {script : Script} (h : s.run config script = .ok ()) :
    script.depth? s.depth = some 0 := by
  obtain ⟨last, hsteps, hfinish⟩ := bind_eq_ok h
  have hclosed : last.depth = 0 := by
    rw [depth, List.isEmpty_iff.1 (isEmpty_of_finish hfinish), List.length_nil]
  rw [depth_of_steps hsteps, hclosed]

theorem unbalanced_of_run {script : Script} (h : s.run config script = .error .unbalancedConditional) :
    script.depth? s.depth ≠ some 0 ∨ ∃ front c back t, script = front ++ c :: back ∧
      s.steps config front = .ok t ∧ LacksCondition c t := by
  rcases bind_eq_error h with hsteps | ⟨last, hsteps, hfinish⟩
  · obtain ⟨front, c, back, t, rfl, hfront, hfailed⟩ := steps_eq_error hsteps
    refine (unbalanced_of_step hfailed).imp (fun hnone => ?_) fun hlacks =>
      ⟨front, c, back, t, rfl, hfront, hlacks⟩
    rw [Script.depth?_append, depth_of_steps hfront, Option.bind_eq_bind, Option.bind_some,
      Script.depth?_cons, hnone]
    exact nofun
  · refine .inl ?_
    rw [depth_of_steps hsteps, ne_eq, Option.some.injEq]
    exact depth_of_finish hfinish

end Plain

namespace Machine

variable {config : Config} {m : Machine} {rest : List Entry} {n : Nat}

/-! ## Parts of a run -/

/-- Runs so many of the pending entries, unless one fails or there are no more. -/
def process (config : Config) : Nat → Step Unit
  | 0, m => .ok () m
  | n + 1, m =>
    match m.pending with
    | [] => .ok () m
    | entry :: rest =>
      match step config entry { m with pending := rest } with
      | .ok _ next => process config n next
      | .error e last => .error e last

theorem process_succ {entry : Entry} (hp : m.pending = entry :: rest) :
    process config (n + 1) m = match step config entry { m with pending := rest } with
      | .ok _ next => process config n next
      | .error e last => .error e last := by
  rw [process, hp]

theorem process_one {c : Command} {m : Machine} {rest : List Entry}
    (hp : m.pending = .command c :: rest) :
    process config 1 m = step config (.command c) { m with pending := rest } := by
  rw [process_succ hp]
  cases step config (.command c) { m with pending := rest } <;> rfl

theorem process_add (n k : Nat) (m : Machine) :
    process config (n + k) m = match process config n m with
      | .ok _ next => process config k next
      | .error e last => .error e last := by
  induction n generalizing m with
  | zero =>
    rw [Nat.zero_add]
    rfl
  | succ n ih =>
    cases hp : m.pending with
    | nil =>
      have hstays : ∀ k, process config k m = .ok () m := by
        intro k
        cases k with
        | zero => rfl
        | succ k => rw [process, hp]
      rw [hstays, hstays]
      exact (hstays k).symm
    | cons entry rest =>
      rw [Nat.succ_add, process_succ hp, process_succ hp]
      cases step config entry { m with pending := rest } with
      | ok _ next => exact ih next
      | error e last => rfl

/-- Under flags without the two rules a part of a run is the run of the plain machine on the commands. -/
theorem process_mirrors (config : Config) (hp2sh : config.flags.p2sh = false)
    (hwitness : config.flags.witness = false) (script : Script) (rest : List Entry)
    (hp : m.pending = script.map .command ++ rest) :
    match process config script.length m with
    | .ok _ m' => m.plain.steps config script = .ok m'.plain ∧ m'.pending = rest
    | .error e _ => m.plain.steps config script = .error e := by
  induction script generalizing m with
  | nil => exact ⟨rfl, hp⟩
  | cons c script ih =>
    have hmirrors := mirrors_step hp2sh hwitness c { m with pending := script.map .command ++ rest }
    rw [List.length_cons, process_succ hp, Plain.steps_cons]
    cases hstep : step config (.command c) { m with pending := script.map .command ++ rest } with
    | error e last =>
      rw [hstep] at hmirrors
      have hplain : m.plain.step config c = .error e := hmirrors
      rw [hplain]
      rfl
    | ok _ next =>
      rw [hstep] at hmirrors
      have hplain : m.plain.step config c = .ok next.plain := hmirrors
      rw [hplain]
      exact ih (pending_kept_of_step hp2sh hwitness hstep)

end Machine

/-- Without the rules on scripts given by their hash and on witness programs, after any part of a script
as many conditionals are open as its commands say, whatever the data on the stack is. So an evaluation
that succeeds has run a balanced script. One that fails as unbalanced has either run another, or it has
executed a command that opens a conditional on an empty stack. -/
theorem evaluation_balanced {config : Config} (hp2sh : config.flags.p2sh = false)
    (hwitness : config.flags.witness = false) (script : Script) (witness : List Bytes)
    (pool : BufferPool) :
    (∀ front back m, script = front ++ back →
        Machine.process config front.length
          { Machine.start config.limits script witness with pool } = .ok () m →
        m.pending = back.map .command ∧ front.depth? 0 = some m.branches.arms.length) ∧
      ((evaluateWith config script witness pool).result = .ok () → script.isBalanced) ∧
      ((evaluateWith config script witness pool).result = .error .unbalancedConditional →
        script.isBalanced = false ∨ ∃ front c back m, script = front ++ c :: back ∧
          Machine.process config front.length
            { Machine.start config.limits script witness with pool } = .ok () m ∧
          (c = .ofOpcode .opIf ∨ c = .ofOpcode .opNotIf) ∧ m.isExecuting ∧
          m.frame.stack.elements = []) := by
  have hprocess (front back : Script) (h : script = front ++ back) :=
    Machine.process_mirrors config hp2sh hwitness front (back.map .command)
      (m := { Machine.start config.limits script witness with pool })
      (by rw [← List.map_append, ← h]; rfl)
  refine ⟨?_, ?_, ?_⟩
  · intro front back m hscript hm
    have hfront := hprocess front back hscript
    rw [hm] at hfront
    exact ⟨hfront.2, Plain.depth_of_steps hfront.1⟩
  · intro hresult
    rw [evaluateWith_result hp2sh hwitness] at hresult
    split at hresult
    · cases hresult
    · exact beq_iff_eq.2 (Plain.depth_of_run hresult)
  · intro hresult
    rw [evaluateWith_result hp2sh hwitness] at hresult
    split at hresult
    · cases hresult
    · refine (Plain.unbalanced_of_run hresult).imp beq_eq_false_iff_ne.2 ?_
      rintro ⟨front, c, back, t, hscript, hfront, hlacks⟩
      have hreached := hprocess front (c :: back) hscript
      cases hm : Machine.process config front.length
          { Machine.start config.limits script witness with pool } with
      | error e last =>
        rw [hm] at hreached
        cases hreached.symm.trans hfront
      | ok _ m =>
        rw [hm] at hreached
        obtain rfl : m.plain = t := Except.ok.inj (hreached.1.symm.trans hfront)
        exact ⟨front, c, back, m, hscript, hm, hlacks.opens, hlacks.isExecuting, hlacks.stack_eq⟩

/-- A conditional without a condition is balanced, and it fails as unbalanced. With a condition in front
of it, its arm runs and the evaluation succeeds. -/
theorem evaluation_balanced_missing_condition :
    let config : Config := { flags := .none, sighash := sha256 [] }
    let conditional : Script := [.ofOpcode .opIf, .push [0x2a], .ofOpcode .opEndIf]
    (evaluateWith config conditional [] .empty).result = .error .unbalancedConditional ∧
      (∃ front c back m, conditional = front ++ c :: back ∧
        Machine.process config front.length { Machine.start config.limits conditional [] with
          pool := .empty } = .ok () m ∧ m.frame.stack.elements = []) ∧
      (evaluateWith config (.push [0x01] :: conditional) [] .empty).result = .ok () ∧
      Script.isBalanced (.push [0x01] :: conditional) := by
  intro config conditional
  have hfails : (evaluateWith config conditional [] .empty).result =
      .error .unbalancedConditional := by
    rw [evaluateWith_result rfl rfl]
    rfl
  have hsucceeds : (evaluateWith config (.push [0x01] :: conditional) [] .empty).result = .ok () := by
    rw [evaluateWith_result rfl rfl]
    rfl
  refine ⟨hfails, ?_, hsucceeds, (evaluation_balanced rfl rfl _ _ _).2.1 hsucceeds⟩
  rcases (evaluation_balanced rfl rfl _ _ _).2.2 hfails with hopen | hlacks
  · exact absurd hopen (by decide)
  · obtain ⟨front, c, back, m, hscript, hm, -, -, hstack⟩ := hlacks
    exact ⟨front, c, back, m, hscript, hm, hstack⟩

end CoinScript
