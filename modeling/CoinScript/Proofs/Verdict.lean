import Mathlib.Control.Monad.Basic
import CoinScript.Proofs.Reports

/-!
# Runs and verdicts

A run goes on after every step that succeeds and stops at the first one that fails. Its verdict is what
is reported of it: success, or the code of the failure. The answer to whether an output can be spent is
the verdict on the unlocking script followed by the locking script.
-/

namespace CoinScript

namespace Machine

variable {m m' : Machine} {entry : Entry} {rest : List Entry}

/-! ## Steps and runs -/

section Runs

variable {η : Type} [Executable η] {config : Config η}

theorem step_of_ok (h : runEntry config entry (m.reported (entryEvent m.frame.stack.length entry)) =
      .ok () m') (hsize : m'.frame.size ≤ config.limits.maxStackSize) :
    step config entry m = .ok () m' := by
  have hannounce : announce entry m =
      .ok () (m.reported (entryEvent m.frame.stack.length entry)) := rfl
  simp only [step, bind, EStateM.bind, hannounce, h, checkSize, if_neg (Nat.not_lt.2 hsize)]

theorem step_of_error {e : EvalError}
    (h : runEntry config entry (m.reported (entryEvent m.frame.stack.length entry)) = .error e m') :
    step config entry m = .error e m' := by
  have hannounce : announce entry m =
      .ok () (m.reported (entryEvent m.frame.stack.length entry)) := rfl
  simp only [step, bind, EStateM.bind, hannounce, h]

variable [config.Ends]

theorem run_of_nil (h : m.pending = []) : m.run config = finish m := by
  rw [Machine.run]
  split
  · rfl
  · simp_all

theorem run_of_cons (h : m.pending = entry :: rest) :
    m.run config = match step config entry { m with pending := rest } with
      | .error e m' => .error e m'
      | .ok _ m' => m'.run config := by
  rw [Machine.run]
  split
  · simp_all
  · rename_i h'
    rw [h] at h'
    cases h'
    split <;> simp_all

/-- A run that succeeds has made its first step and succeeds from there. -/
theorem run_cons_ok (hp : m.pending = entry :: rest) (h : m.run config = .ok () m') :
    ∃ next, step config entry { m with pending := rest } = .ok () next ∧
      next.run config = .ok () m' := by
  rw [run_of_cons hp] at h
  cases hstep : step config entry { m with pending := rest } with
  | error e next =>
    rw [hstep] at h
    cases h
  | ok _ next =>
    rw [hstep] at h
    exact ⟨next, rfl, h⟩

end Runs

variable {config : Config}

/-- What has been reported before a run is still reported after it. -/
theorem run_events (h : m.run config = .ok () m') : m.events ⊆ m'.events := by
  induction m using Machine.run.induct config with
  | case1 m hnil =>
    rw [run_of_nil hnil] at h
    obtain ⟨rfl, -⟩ := finish_ok h
    exact List.Subset.refl _
  | case2 m entry rest hp e next hstep =>
    rw [run_of_cons hp, hstep] at h
    cases h
  | case3 m entry rest hp _ next hstep ih =>
    rw [run_of_cons hp, hstep] at h
    have hfirst : m.events ⊆ next.events := step_events (m := { m with pending := rest }) hstep
    exact List.Subset.trans hfirst (ih h)

/-! ## Verdicts -/

/-- What the run of a machine is reported as. -/
def verdict (config : Config) (m : Machine) : Except ResultCode Unit :=
  match m.run config with
  | .ok _ _ => .ok ()
  | .error e _ => .error e.code

theorem verdict_eq_ok_iff : m.verdict config = .ok () ↔ ∃ m', m.run config = .ok () m' := by
  unfold verdict
  cases m.run config with
  | ok _ m' => simp
  | error e m' => simp

theorem verdict_of_step_ok (hp : m.pending = entry :: rest)
    (hstep : step config entry { m with pending := rest } = .ok () m') :
    m.verdict config = m'.verdict config := by
  rw [verdict, run_of_cons hp, hstep, verdict]

theorem verdict_of_step_error {e : EvalError} (hp : m.pending = entry :: rest)
    (hstep : step config entry { m with pending := rest } = .error e m') :
    m.verdict config = .error e.code := by
  rw [verdict, run_of_cons hp, hstep]

/-- What is reported if a run goes on with the result of one of its parts. -/
def verdictAfter (config : Config) : EStateM.Result EvalError Machine Unit → Except ResultCode Unit
  | .error e _ => .error e.code
  | .ok _ m => m.verdict config

/-! ## Runs that can be computed -/

/-- The end of a run, if it takes less than so many steps. -/
def runIn? (config : Config) : Nat → Machine → Option (EStateM.Result EvalError Machine Unit)
  | 0, _ => none
  | steps + 1, m =>
    match m.pending with
    | [] => some (finish m)
    | entry :: rest =>
      match step config entry { m with pending := rest } with
      | .ok _ m' => runIn? config steps m'
      | .error e m' => some (.error e m')

theorem run_of_runIn? {steps : Nat} {result : EStateM.Result EvalError Machine Unit}
    (h : runIn? config steps m = some result) : m.run config = result := by
  induction steps generalizing m with
  | zero => cases h
  | succ steps ih =>
    cases hp : m.pending with
    | nil =>
      simp only [runIn?, hp, Option.some.injEq] at h
      rw [run_of_nil hp, h]
    | cons entry rest =>
      rw [run_of_cons hp]
      simp only [runIn?, hp] at h
      cases hstep : step config entry { m with pending := rest } with
      | ok _ m' =>
        rw [hstep] at h
        exact ih h
      | error e m' =>
        rw [hstep] at h
        exact Option.some.inj h

/-- What the end of a run is reported as. -/
def verdictOf : EStateM.Result EvalError Machine Unit → Except ResultCode Unit
  | .ok _ _ => .ok ()
  | .error e _ => .error e.code

theorem verdict_of_runIn? {steps : Nat} {answer : Except ResultCode Unit}
    (h : (runIn? config steps m).map verdictOf = some answer) : m.verdict config = answer := by
  obtain ⟨result, hresult, rfl⟩ := Option.map_eq_some_iff.1 h
  rw [verdict, run_of_runIn? hresult]
  cases result <;> rfl

/-- The machine on which a script is about to run. -/
def start (limits : Limits) (script : Script) (witness : List Bytes) : Machine :=
  { initial limits witness .empty with pending := script.map .command }

end Machine

/-! ## Evaluations -/

section Evaluate

variable {η : Type} [Executable η] (config : Config η) [config.Ends] {script : Script}
  {witness : List Bytes} {pool : BufferPool}

theorem evaluateWith_of_oversized (h : config.limits.maxCommands < script.length) :
    evaluateWith config script witness pool =
      ⟨.error .scriptSize, .initial config.limits witness pool⟩ := by
  simp only [evaluateWith, Machine.runNext, Machine.initial, List.length_nil, List.length_map,
    Nat.zero_add, if_pos h]

/-- The evaluation of a script that is not too long is a run. -/
theorem evaluateWith_of_fits (h : script.length ≤ config.limits.maxCommands) :
    evaluateWith config script witness pool =
      match Machine.run config { Machine.start config.limits script witness with pool } with
      | .error e m => ⟨.error e, m⟩
      | .ok _ m => ⟨.ok (), m⟩ := by
  have hnext : Machine.runNext config.limits (script.map .command)
      (.initial config.limits witness pool) =
        .ok () { Machine.start config.limits script witness with pool } := by
    simp only [Machine.runNext, Machine.start, Machine.initial, List.length_nil, List.length_map,
      Nat.zero_add, if_neg (Nat.not_lt.2 h), List.append_nil]
  cases hrun : Machine.run config { Machine.start config.limits script witness with pool } with
  | error e m => simp only [evaluateWith, hnext, hrun]
  | ok _ m => simp only [evaluateWith, hnext, hrun]

theorem evaluate_of_oversized (h : config.limits.maxCommands < script.length) :
    (evaluate config script witness).result = .error .scriptSize := by
  rw [evaluate, evaluateWith_of_oversized config h]

theorem evaluate_of_fits (h : script.length ≤ config.limits.maxCommands) :
    evaluate config script witness =
      match (Machine.start config.limits script witness).run config with
      | .error e m => ⟨.error e, m⟩
      | .ok _ m => ⟨.ok (), m⟩ :=
  evaluateWith_of_fits config h

end Evaluate

/-- The outcome of an evaluation that has come to this end. -/
def Outcome.of : EStateM.Result EvalError Machine Unit → Outcome
  | .error e m => ⟨.error e, m⟩
  | .ok _ m => ⟨.ok (), m⟩

/-- Whatever can be decided of the outcome is known once the run has been computed. -/
theorem evaluateWith_of_runIn {config : Config} {script : Script} {witness : List Bytes}
    {pool : BufferPool} (p : Outcome → Prop) [DecidablePred p] (steps : Nat)
    (hsize : script.length ≤ config.limits.maxCommands)
    (h : (Machine.runIn? config steps { Machine.start config.limits script witness with pool }).any
      fun result => p (.of result)) : p (evaluateWith config script witness pool) := by
  obtain ⟨result, hresult, hp⟩ := (Option.any_eq_true _ _).1 h
  rw [evaluateWith_of_fits config hsize, Machine.run_of_runIn? hresult]
  cases result <;> exact of_decide_eq_true hp

/-! ## Spending an output -/

/-- Whether an output can be spent is decided by the run of the unlocking script followed by the
locking script, unless they are refused from the start. -/
theorem verifyScript_eq (flags : Flags) (checker : Checker) (sighash : Digest 32)
    (scriptSig scriptPubKey : Script) (witness : List Bytes) :
    verifyScript flags checker sighash scriptSig scriptPubKey witness =
      if flags.sigPushOnly && !scriptSig.isPushOnly then .error .sigPushOnly
      else if ({} : Limits).maxCommands < (scriptSig ++ scriptPubKey).length then .error .scriptSize
      else (Machine.start {} (scriptSig ++ scriptPubKey) witness).verdict
        { flags, checker, sighash } := by
  unfold verifyScript verify
  split
  · rfl
  · by_cases hsize : ({} : Limits).maxCommands < (scriptSig ++ scriptPubKey).length
    · rw [if_pos hsize]
      simp only [evaluate_of_oversized { flags, checker, sighash } hsize]
      rfl
    · rw [if_neg hsize]
      simp only [evaluate_of_fits { flags, checker, sighash } (Nat.le_of_not_lt hsize)]
      rw [Machine.verdict]
      cases Machine.run _ _ <;> rfl

section Spending

variable {flags : Flags} {checker : Checker} {sighash : Digest 32} {scriptSig scriptPubKey : Script}
  {witness : List Bytes}

/-- A spend that is accepted has run to its end, and its events are those of the run and the success. -/
theorem verifyScript_events
    (h : verifyScript flags checker sighash scriptSig scriptPubKey witness = .ok ()) :
    ∃ m, (Machine.start {} (scriptSig ++ scriptPubKey) witness).run { flags, checker, sighash } =
        .ok () m ∧
      (verify { flags, checker, sighash } scriptSig scriptPubKey witness).events =
        (.succeeded :: m.events).reverse := by
  have hverdict := h
  rw [verifyScript_eq] at hverdict
  split at hverdict
  · cases hverdict
  · rename_i hpush
    split at hverdict
    · cases hverdict
    · rename_i hsize
      obtain ⟨m, hrun⟩ := Machine.verdict_eq_ok_iff.1 hverdict
      have hevaluate : evaluate { flags, checker, sighash } (scriptSig ++ scriptPubKey) witness = _ :=
        evaluate_of_fits _ (Nat.le_of_not_lt hsize)
      refine ⟨m, hrun, ?_⟩
      unfold verify
      rw [if_neg hpush]
      simp only [hevaluate, hrun, Outcome.events]

/-- The scripts of a spend that is accepted are not too long. -/
theorem length_of_verifyScript
    (h : verifyScript flags checker sighash scriptSig scriptPubKey witness = .ok ()) :
    (scriptSig ++ scriptPubKey).length ≤ ({} : Limits).maxCommands := by
  rw [verifyScript_eq] at h
  split at h
  · cases h
  · split at h
    · cases h
    · rename_i hsize
      exact Nat.le_of_not_lt hsize

/-- What has been reported on the way is reported of the spend. -/
theorem verifyScript_ok
    (h : verifyScript flags checker sighash scriptSig scriptPubKey witness = .ok ()) :
    ∃ m, (Machine.start {} (scriptSig ++ scriptPubKey) witness).run { flags, checker, sighash } =
        .ok () m ∧
      m.events ⊆ (verify { flags, checker, sighash } scriptSig scriptPubKey witness).events := by
  obtain ⟨m, hrun, hevents⟩ := verifyScript_events h
  refine ⟨m, hrun, ?_⟩
  intro event hevent
  simp [hevents, hevent]

theorem verifyScript_of_isPushOnly (hpush : scriptSig.isPushOnly)
    (hsize : (scriptSig ++ scriptPubKey).length ≤ ({} : Limits).maxCommands) :
    verifyScript flags checker sighash scriptSig scriptPubKey witness =
      (Machine.start {} (scriptSig ++ scriptPubKey) witness).verdict { flags, checker, sighash } := by
  rw [verifyScript_eq, hpush, Bool.not_true, Bool.and_false, if_neg Bool.false_ne_true,
    if_neg (Nat.not_lt.2 hsize)]

/-- Where an unlocking script ends does not matter if it only pushes. -/
theorem verifyScript_append {first second : Script} (hfirst : first.isPushOnly)
    (hsecond : second.isPushOnly) :
    verifyScript flags checker sighash (first ++ second) scriptPubKey witness =
      verifyScript flags checker sighash first (second ++ scriptPubKey) witness := by
  have hboth : Script.isPushOnly (first ++ second) := by
    rw [Script.isPushOnly, List.all_append, Bool.and_eq_true]
    exact ⟨hfirst, hsecond⟩
  rw [verifyScript_eq, verifyScript_eq, hboth, hfirst, List.append_assoc]

/-- If nothing is refused from the start, the answer is known once the run has been computed. -/
theorem verifyScript_of_runIn (steps : Nat) {answer : Except ResultCode Unit}
    (hpush : (flags.sigPushOnly && !scriptSig.isPushOnly) = false)
    (hsize : (scriptSig ++ scriptPubKey).length ≤ ({} : Limits).maxCommands)
    (h : (Machine.runIn? { flags, checker, sighash } steps
      (.start {} (scriptSig ++ scriptPubKey) witness)).map Machine.verdictOf = some answer) :
    verifyScript flags checker sighash scriptSig scriptPubKey witness = answer := by
  rw [verifyScript_eq, hpush, if_neg Bool.false_ne_true, if_neg (Nat.not_lt.2 hsize)]
  exact Machine.verdict_of_runIn? h

end Spending

end CoinScript
