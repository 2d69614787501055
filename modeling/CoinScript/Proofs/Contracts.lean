import CoinScript.Proofs.Questions
import CoinScript.Proofs.Steps

/-!
# Contracts of evaluations

A contract promises something about the machine that a computation leaves, whether the computation
succeeds or fails. Such promises carry over from the parts of a step to the step, and from steps to
whole evaluations: this module does it once for every contract. Of its own a contract only has to settle
the few things that a step is made of.
-/

namespace CoinScript

/-- Whether an event tells that a script from the stack or from the witness has been read, or that it
could not be read. -/
def Event.isParse : Event → Bool
  | .redeemed _ _ | .expandedScript _ _ _ | .failed (.injectedScript _) => true
  | _ => false

/-- What is promised when a computation succeeds, and when it fails for some reason. -/
structure Contract where
  onOk : Machine → Machine → Prop
  onError : EvalError → Machine → Machine → Prop
  refl : ∀ m, onOk m m
  trans : ∀ {m₁ m₂ m₃}, onOk m₁ m₂ → onOk m₂ m₃ → onOk m₁ m₃
  trans_error : ∀ {e m₁ m₂ m₃}, onOk m₁ m₂ → onError e m₂ m₃ → onError e m₁ m₃

namespace Contract

open Machine

variable {α β : Type} {c : Contract} {config : Config} {m m' : Machine}

/-- The promise is kept by this result of a computation that started with `m`. -/
def Met (c : Contract) (m : Machine) : EStateM.Result EvalError Machine α → Prop
  | .ok _ m' => c.onOk m m'
  | .error e m' => c.onError e m m'

/-- The promise is kept wherever the computation starts. -/
def Holds (c : Contract) (x : Step α) : Prop := ∀ m, c.Met m (x m)

/-! ## Combinations -/

theorem met_of_onOk {result : EStateM.Result EvalError Machine α} {m₁ : Machine}
    (h : c.onOk m m₁) (hmet : c.Met m₁ result) : c.Met m result := by
  cases result with
  | ok a m' => exact c.trans h hmet
  | error e m' => exact c.trans_error h hmet

theorem met_bind {x : Step α} {f : α → Step β} (hx : c.Met m (x m)) (hf : ∀ a, c.Holds (f a)) :
    c.Met m ((x >>= f) m) := by
  simp only [bind, EStateM.bind]
  cases hxm : x m with
  | error e m₁ =>
    rw [hxm] at hx
    exact hx
  | ok a m₁ =>
    rw [hxm] at hx
    exact met_of_onOk hx (hf a m₁)

theorem holds_pure (a : α) : c.Holds (pure a) := fun m => c.refl m

theorem holds_get : c.Holds (get : Step Machine) := fun m => c.refl m

theorem holds_bind {x : Step α} {f : α → Step β} (hx : c.Holds x) (hf : ∀ a, c.Holds (f a)) :
    c.Holds (x >>= f) :=
  fun m => met_bind (hx m) hf

theorem holds_ite {p : Prop} [Decidable p] {x y : Step α} (hx : p → c.Holds x)
    (hy : ¬p → c.Holds y) : c.Holds (if p then x else y) := by
  split
  · exact hx ‹_›
  · exact hy ‹_›

theorem holds_onlyIf {condition : Bool} {x : Step Unit} (hx : condition → c.Holds x) :
    c.Holds (onlyIf condition x) :=
  holds_ite hx fun _ => holds_pure ()

/-- An action that pays for what it asks keeps a promise that follows from this. -/
theorem holds_act {env : Env} {credit : Nat} {rest : α → Nat} {x : Action α}
    (h : x.Pays env credit rest)
    (hok : ∀ {m a frame}, m.frame.Pays env credit (rest a) frame → c.onOk m { m with frame })
    (herror : ∀ {m e frame}, m.frame.Halts env credit frame → e.code.isEnabled env.flags.fixed →
      c.onError e m { m with frame }) :
    c.Holds (act x) := by
  intro m
  have hx := h m.frame
  unfold act
  cases hxm : x m.frame with
  | ok a frame =>
    rw [hxm] at hx
    exact hok hx
  | error e frame =>
    rw [hxm] at hx
    exact herror hx.1 hx.2

/-- If any such action keeps the promise, whatever the credit, then the opcodes keep it. -/
theorem holds_executed
    (hact : ∀ {credit rest} {x : Action Unit}, x.Pays config.toEnv credit rest → c.Holds (act x))
    (byte : UInt8) (handler : Handler) :
    c.Holds (do
      onlyIf (Opcode.isCounted byte) (act (Action.charge config.limits 1))
      act (handler.run config.toEnv byte)) := by
  have hcharge : Action.Pays config.toEnv 0 (Action.charge config.limits 1) fun _ => 0 + 1 :=
    Action.pays_charge 1
  refine holds_bind (holds_onlyIf fun _ => hact hcharge) fun _ => ?_
  exact hact (handler.pays_run config.toEnv byte)

/-- Reads a script and reports that it has been read, as both rules do that change the program. -/
def reads (body : Bytes) (event : Script → Event) : Step Script := do
  let script ← parseInjected body
  report (event script)
  return script

theorem holds_reads_bind {body : Bytes} {event : Script → Event} {f : Script → Step α}
    (hread : c.Holds (reads body event)) (hf : ∀ script, c.Holds (f script)) :
    c.Holds (do
      let script ← parseInjected body
      report (event script)
      f script) := by
  have hbind := holds_bind hread hf
  simpa only [reads, bind_assoc, pure_bind] using hbind

/-- What has to be settled for a contract. The parts of an evaluation are: refusing an entry for a rule
that is switched on, changing the main stack or the program, reporting, reading scripts, and
executing opcodes, which comes after using up an operation. -/
structure Covers (c : Contract) (config : Config) : Prop where
  refused : ∀ {e} m, e.code.isEnabled config.flags → e.code ≠ .unknownError → c.onError e m m
  restacked : ∀ m stack, c.onOk m { m with frame := { m.frame with stack } }
  rearranged : ∀ m pending witness branches, c.onOk m { m with pending, witness, branches }
  reported : ∀ m {event}, event.isParse = false → c.onOk m (m.reported event)
  read : config.flags.p2sh ∨ config.flags.witness → ∀ body (event : Script → Event),
    (∀ script, (event script).isParse) → c.Holds (reads body event)
  charged : c.Holds (act (Action.charge config.limits 1))
  executed : ∀ {byte handler}, config.table.handler? byte = some handler → c.Holds do
    onlyIf (Opcode.isCounted byte) (act (Action.charge config.limits 1))
    act (handler.run config.toEnv byte)

namespace Covers

variable (h : c.Covers config)
include h

/-! ## Parts of a step -/

theorem throw {e : EvalError} (hrule : e.code.isEnabled config.flags)
    (hparse : e.code ≠ .unknownError) : c.Holds (throw e : Step α) :=
  fun m => h.refused m hrule hparse

theorem take (f : Stack Bytes → Except Stack.Error (α × Stack Bytes)) :
    c.Holds (act (Action.take f)) := by
  intro m
  unfold act Action.take
  cases f m.frame.stack with
  | ok taken => exact h.restacked m taken.2
  | error e => exact h.refused m (EvalError.isEnabled_ofStack _ e) (by cases e <;> nofun)

theorem push (data : Bytes) : c.Holds (act (Action.push data)) := by
  unfold Action.push Action.alter
  exact h.take _

theorem drop : c.Holds (act Action.drop) := by
  have hdrop : act Action.drop = (act Action.pop >>= fun _ => pure ()) := by
    funext m
    simp only [act, Action.drop, bind, EStateM.bind]
    cases Action.pop m.frame <;> rfl
  rw [hdrop]
  exact holds_bind (h.take _) fun _ => holds_pure ()

theorem runNext (entries : List Entry) : c.Holds (runNext config.limits entries) := by
  intro m
  unfold Machine.runNext
  split
  · exact h.refused m rfl nofun
  · exact h.rearranged m _ m.witness m.branches

theorem runLast (entries : List Entry) : c.Holds (runLast config.limits entries) := by
  intro m
  unfold Machine.runLast
  split
  · exact h.refused m rfl nofun
  · exact h.rearranged m _ m.witness m.branches

theorem takeWitness : c.Holds takeWitness := fun m => h.rearranged m m.pending [] m.branches

theorem redeem (hflag : config.flags.p2sh) (hash : Digest 20) :
    c.Holds (redeem config.limits hash) := by
  refine holds_bind (fun m => h.rearranged m [] m.witness m.branches) fun _ => ?_
  refine holds_bind (h.take _) fun body => ?_
  refine holds_ite (fun _ => ?_) fun _ => h.throw rfl nofun
  have hread := h.read (.inl hflag) body (.redeemed hash) fun _ => rfl
  exact holds_reads_bind hread fun script => h.runNext (script.map .command)

theorem redeemPending (hflag : config.flags.p2sh) : c.Holds (redeemPending config.limits) := by
  refine holds_bind holds_get fun m => ?_
  split
  · exact h.redeem hflag _
  · exact holds_pure ()

theorem expand (hflag : config.flags.witness) (program : WitnessProgram) :
    c.Holds (expand config.limits program) := by
  cases program with
  | pubKeyHash hash =>
    refine holds_bind h.takeWitness fun witness => ?_
    exact holds_bind (fun m => h.reported m rfl) fun _ => h.runLast _
  | scriptHash hash =>
    refine holds_bind h.takeWitness fun witness => ?_
    split
    · exact h.throw hflag nofun
    · rename_i body _
      refine holds_ite (fun _ => ?_) fun _ => h.throw hflag nofun
      have hread := h.read (.inr hflag) body (.expandedScript hash witness.dropLast)
        fun _ => rfl
      exact holds_reads_bind hread fun script =>
        h.runLast (witness.dropLast.map .witness ++ script.map .command)

theorem expandWitness (hflag : config.flags.witness) : c.Holds (expandWitness config.limits) := by
  refine holds_bind holds_get fun m => ?_
  split
  · refine holds_bind h.drop fun _ => ?_
    exact holds_bind h.drop fun _ => h.expand hflag _
  · exact holds_pure ()

theorem pushData (scripted : Bool) (data : Bytes) :
    c.Holds (pushData config.toEnv scripted data) := by
  refine holds_ite (fun _ => h.throw rfl nofun) fun _ => ?_
  refine holds_bind holds_get fun m => ?_
  refine holds_ite (fun _ => holds_pure ()) fun _ => ?_
  refine holds_ite (fun hminimal => ?_) fun _ => ?_
  · simp only [Bool.and_eq_true] at hminimal
    exact h.throw hminimal.1.2 nofun
  · refine holds_bind (h.push data) fun _ => ?_
    refine holds_bind (holds_onlyIf h.redeemPending) fun _ => ?_
    exact holds_onlyIf h.expandWitness

theorem openBranch (expected : Bool) : c.Holds (openBranch expected) := by
  intro m
  unfold Machine.openBranch
  split
  · cases m.frame.stack.pop with
    | error e => exact h.refused m rfl nofun
    | ok taken => exact c.trans (h.restacked m taken.2) (h.rearranged _ m.pending m.witness _)
  · exact h.rearranged m m.pending m.witness _

theorem flipBranch : c.Holds flipBranch := by
  intro m
  unfold Machine.flipBranch
  split
  · exact h.refused m rfl nofun
  · exact h.rearranged m m.pending m.witness _

theorem closeBranch : c.Holds closeBranch := by
  intro m
  unfold Machine.closeBranch
  split
  · exact h.refused m rfl nofun
  · exact h.rearranged m m.pending m.witness _

theorem charge (byte : UInt8) :
    c.Holds (onlyIf (Opcode.isCounted byte) (act (Action.charge config.limits 1))) :=
  holds_onlyIf fun _ => h.charged

/-- The operation is used up also for an opcode that is not executed then. -/
theorem charge_execute (byte : UInt8) :
    c.Holds (do
      onlyIf (Opcode.isCounted byte) (act (Action.charge config.limits 1))
      execute config byte) := by
  cases hhandler : config.table.handler? byte with
  | none =>
    refine holds_bind (h.charge byte) fun _ m => ?_
    rw [execute_eq, hhandler]
    split
    · exact h.refused m rfl nofun
    · exact c.refl m
  | some handler =>
    intro m
    have hcharge := h.charge byte m
    have hexecuted := h.executed hhandler m
    simp only [bind, EStateM.bind] at hexecuted ⊢
    cases hc : onlyIf (Opcode.isCounted byte) (act (Action.charge config.limits 1)) m with
    | error e m₁ =>
      rw [hc] at hcharge
      exact hcharge
    | ok _ m₁ =>
      rw [hc] at hcharge hexecuted
      simp only [execute_eq, hhandler]
      split
      · exact hexecuted
      · exact hcharge

theorem runOpcode (byte : UInt8) : c.Holds (runOpcode config byte) := by
  unfold Machine.runOpcode
  split
  · rename_i e hforbidden
    unfold forbidden? at hforbidden
    split at hforbidden
    · cases hforbidden
      exact h.throw rfl nofun
    · split at hforbidden
      · cases hforbidden
        exact h.throw rfl nofun
      · cases hforbidden
  · rcases dispatch_cases config byte with ⟨expected, hd⟩ | hd | hd | hd <;> rw [hd]
    · exact holds_bind (h.charge byte) fun _ => h.openBranch expected
    · exact holds_bind (h.charge byte) fun _ => h.flipBranch
    · exact holds_bind (h.charge byte) fun _ => h.closeBranch
    · exact h.charge_execute byte

theorem runEntry (entry : Entry) : c.Holds (runEntry config entry) := by
  match entry with
  | .command (.push data) => exact h.pushData true data
  | .command (.opcode byte) => exact h.runOpcode byte
  | .witness data => exact h.pushData false data

/-- A step keeps the promise. -/
theorem step (entry : Entry) : c.Holds (step config entry) := by
  refine holds_bind (fun m => h.reported m ?_) fun _ => ?_
  · cases entry <;> rfl
  · refine holds_bind (h.runEntry entry) fun _ m => ?_
    unfold checkSize
    split
    · exact h.refused m rfl nofun
    · exact c.refl m

theorem finish : c.Holds finish := by
  intro m
  unfold Machine.finish
  split
  · exact h.refused m rfl nofun
  · split
    · split
      · exact c.refl m
      · exact h.refused m rfl nofun
    · exact h.refused m rfl nofun

/-! ## Evaluations -/

/-- The promise is kept by any number of steps. -/
theorem after {n : Nat} (hafter : after? config n m = some m') : c.onOk m m' := by
  refine after?_invariant (P := c.onOk m) ?_ hafter (c.refl m)
  intro before entry rest next _ hstep hbefore
  have hmet := h.step entry { before with pending := rest }
  rw [hstep] at hmet
  exact c.trans hbefore (c.trans (h.rearranged before rest before.witness before.branches) hmet)

/-- The promise is kept by a run, however it ends. -/
theorem run (m : Machine) : c.Met m (m.run config) := by
  obtain ⟨n, -, last, hafter, hstops⟩ := run_stops config m
  refine met_of_onOk (h.after hafter) ?_
  generalize m.run config = result at hstops
  cases hstops with
  | finished hp => exact h.finish last
  | failed hp hstep =>
    rename_i next entry rest e
    have hmet := h.step entry { last with pending := rest }
    rw [hstep] at hmet
    exact c.trans_error (h.rearranged last _ last.witness last.branches) hmet

end Covers

/-- The promise is kept by this outcome of an evaluation that started with `m`. -/
def MetBy (c : Contract) (m : Machine) (outcome : Outcome) : Prop :=
  match outcome.result with
  | .ok _ => c.onOk m outcome.machine
  | .error e => c.onError e m outcome.machine

/-- The promise is kept by an evaluation, however it ends. -/
theorem Covers.evaluateWith (h : c.Covers config) (script : Script) (witness : List Bytes)
    (pool : BufferPool) :
    c.MetBy (.initial config.limits witness pool) (evaluateWith config script witness pool) := by
  by_cases hsize : config.limits.maxCommands < script.length
  · rw [evaluateWith_of_oversized config hsize]
    exact h.refused _ rfl nofun
  · rw [evaluateWith_of_fits config (Nat.le_of_not_lt hsize)]
    have hmet := met_of_onOk
      (h.rearranged (.initial config.limits witness pool) (script.map .command) witness .closed)
      (h.run { Machine.start config.limits script witness with pool })
    generalize Machine.run config _ = result at hmet
    cases result with
    | ok _ m => exact hmet
    | error e m => exact hmet

end Contract

end CoinScript
