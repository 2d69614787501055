import CoinScript.Proofs.Contracts

/-!
# Signature checks are paid for

Every question about a signature is paid for with an operation before it is asked. So at any moment of
an evaluation there are at most as many such questions as operations used up, and never more than the
operations that are allowed. What happens until the operations exceed some number is what an evaluation
does that is allowed only so many: this gives a meaning to the moments inside a step.
-/

namespace CoinScript

open Machine

variable {α β : Type} {env : Env} {config : Config}

/-- The checks of signatures are opcodes that use up an operation. -/
theorem OpcodeTable.checks_of_standard {byte : UInt8} {handler : Handler}
    (h : standard.handler? byte = some handler) :
    handler.checks ≤ if Opcode.isCounted byte then 1 else 0 := by
  obtain ⟨op, hop, hhandler⟩ := Option.bind_eq_some_iff.1 h
  rw [← Opcode.byte_of_ofByte? hop]
  cases op <;> cases hhandler <;> decide

/-! ## The contract -/

/-- Questions about signatures are paid for with operations. -/
def Contract.payment (env : Env) : Contract where
  onOk m m' := m.frame.Pays env 0 0 m'.frame
  onError _ m m' := m.frame.Halts env 0 m'.frame
  refl m := .refl m.frame
  trans := Frame.Pays.trans
  trans_error := Frame.Pays.trans_halts

theorem Machine.act_bind (x : Action α) (f : α → Action β) :
    act (x >>= f) = act x >>= fun a => act (f a) := by
  funext m
  simp only [act, bind, EStateM.bind]
  cases x m.frame <;> rfl

namespace Contract

theorem payment_act {rest : α → Nat} {x : Action α} (h : x.Pays env 0 rest) :
    (payment env).Holds (act x) :=
  holds_act h (fun hpays => hpays.trans (.of_eq rfl rfl (Nat.zero_le _))) fun hhalts _ => hhalts

theorem payment_reads (body : Bytes) (event : Script → Event) :
    (payment env).Holds (reads body event) := by
  refine holds_bind (fun m => ?_) fun script => holds_bind (fun m => .refl m.frame) fun _ => ?_
  · obtain ⟨pool, hparsed⟩ := parseInjected_eq body m
    rw [hparsed]
    cases Script.parseRaw body with
    | ok script => exact .refl m.frame
    | error e => exact (Frame.Pays.refl m.frame).halts
  · exact holds_pure _

/-- The operation that an opcode uses up pays for its question. -/
theorem payment_executed {byte : UInt8} {handler : Handler}
    (hhandler : OpcodeTable.standard.handler? byte = some handler) :
    (payment env).Holds (do
      onlyIf (Opcode.isCounted byte) (act (Action.charge env.limits 1))
      act (handler.run env byte)) := by
  have hchecks := OpcodeTable.checks_of_standard hhandler
  unfold onlyIf
  split at hchecks
  · rename_i hcounted
    rw [if_pos hcounted, ← act_bind]
    have hrun := Action.pays_mono (handler.pays_run env byte) hchecks
    exact payment_act (Action.pays_bind (Action.pays_charge 1) fun _ => hrun)
  · rename_i hcounted
    rw [if_neg hcounted, pure_bind]
    exact payment_act (Action.pays_mono (handler.pays_run env byte) hchecks)

theorem payment_covers (env : Env) : (payment env).Covers { env with } where
  refused m _ _ := (Frame.Pays.refl m.frame).halts
  restacked _ _ := .of_eq rfl rfl (Nat.le_refl _)
  rearranged m _ _ _ := .refl m.frame
  reported m _ _ := .refl m.frame
  read _ body event _ := payment_reads body event
  charged := payment_act (Action.pays_charge 1)
  executed := payment_executed

end Contract

/-! ## Fewer operations -/

/-- The same with another number of operations that are allowed. -/
def Config.withOps (config : Config) (ops : Nat) : Config :=
  { config with limits := { config.limits with maxOps := ops } }

namespace Machine

variable {ops : Nat} {m : Machine}

/-- The first computation does what the second does, or it stops because more than `ops` operations are
used up. It has not asked anything then. -/
def Cut (ops : Nat) (x y : Step α) : Prop :=
  ∀ m, x m = y m ∨
    ∃ m', x m = .error .opCount m' ∧ ops < m'.frame.opCount ∧ m'.frame.asked = m.frame.asked

/-- Nothing is asked if the computation succeeds. -/
def Silent (x : Step α) : Prop := ∀ m a m', x m = .ok a m' → m'.frame.asked = m.frame.asked

theorem silent_pure (a : α) : Silent (pure a) := by
  intro m a m' h
  cases h
  rfl

theorem cut_refl (x : Step α) : Cut ops x x := fun _ => .inl rfl

/-- After a cut it does not matter what would have come. -/
theorem cut_bind_same {x y : Step α} (hx : Cut ops x y) (f : α → Step β) :
    Cut ops (x >>= f) (y >>= f) := by
  intro m
  simp only [bind, EStateM.bind]
  rcases hx m with hxm | ⟨m', hxm, hcut⟩
  · rw [hxm]
    exact .inl rfl
  · rw [hxm]
    exact .inr ⟨m', rfl, hcut⟩

theorem cut_act_bind {x y : Action α} (hx : Cut ops (act x) (act y)) (f : α → Action β) :
    Cut ops (act (x >>= f)) (act (y >>= f)) := by
  rw [act_bind, act_bind]
  exact cut_bind_same hx _

/-- A cut in the second part counts as a cut of the whole only if the first part is silent. -/
theorem cut_bind {x y : Step α} {f g : α → Step β} (hx : Cut ops x y) (hsilent : Silent y)
    (hf : ∀ a, Cut ops (f a) (g a)) : Cut ops (x >>= f) (y >>= g) := by
  intro m
  simp only [bind, EStateM.bind]
  rcases hx m with hxm | ⟨m', hxm, hcut⟩
  · rw [hxm]
    cases hym : y m with
    | error e m₁ => exact .inl rfl
    | ok a m₁ =>
      rcases hf a m₁ with hfm | ⟨m', hfm, hops, hasked⟩
      · exact .inl hfm
      · exact .inr ⟨m', hfm, hops, hasked.trans (hsilent m a m₁ hym)⟩
  · rw [hxm]
    exact .inr ⟨m', rfl, hcut⟩

theorem cut_charge (hle : ops ≤ config.limits.maxOps) (n : Nat) :
    Cut ops (act (Action.charge (config.withOps ops).limits n))
      (act (Action.charge config.limits n)) := by
  intro m
  by_cases hops : ops < m.frame.opCount + n
  · refine .inr ⟨{ m with frame := { m.frame with opCount := m.frame.opCount + n } }, ?_, hops, rfl⟩
    simp [act, Action.charge, Config.withOps, hops]
  · have hmax : ¬config.limits.maxOps < m.frame.opCount + n := by omega
    left
    simp [act, Action.charge, Config.withOps, hops, hmax]

theorem silent_charge (limits : Limits) (n : Nat) : Silent (act (Action.charge limits n)) := by
  intro m a m' h
  obtain ⟨frame, hf, rfl⟩ := act_eq_ok h
  simp only [Action.charge] at hf
  split at hf
  · cases hf
  · cases hf
    rfl

theorem silent_popNum (env : Env) : Silent (act (Action.popNum env)) := by
  intro m a m' h
  obtain ⟨frame, hf, rfl⟩ := act_eq_ok h
  obtain ⟨top, frame₁, h₁, h₂⟩ := Action.bind_eq_ok hf
  obtain ⟨rest, -, rfl⟩ := Action.pop_eq_ok h₁
  obtain ⟨-, rfl⟩ := Action.orFail_eq_ok h₂
  rfl

/-- The keys use up operations before anything is asked about them. -/
theorem cut_popKeys (hle : ops ≤ config.limits.maxOps) :
    Cut ops (act (Action.popKeys (config.withOps ops).toEnv)) (act (Action.popKeys config.toEnv)) := by
  unfold Action.popKeys
  rw [act_bind, act_bind]
  refine cut_bind (cut_refl _) (silent_popNum _) fun count => ?_
  split
  · exact cut_refl _
  · exact cut_act_bind (cut_charge hle _) _

theorem cut_run (hle : ops ≤ config.limits.maxOps) (byte : UInt8) (handler : Handler) :
    Cut ops (act (handler.run (config.withOps ops).toEnv byte))
      (act (handler.run config.toEnv byte)) := by
  cases handler with
  | checkMultiSig =>
    have hmatch : Action.matchKeys (config.withOps ops).toEnv = Action.matchKeys config.toEnv :=
      Action.matchKeys_congr rfl
    simp only [Handler.run, Action.checkMultiSig, hmatch]
    exact cut_act_bind (cut_popKeys hle) _
  | _ => exact cut_refl _

theorem cut_dispatch (hle : ops ≤ config.limits.maxOps) (byte : UInt8) :
    Cut ops (dispatch (config.withOps ops) byte) (dispatch config byte) := by
  unfold dispatch
  split
  · exact cut_refl _
  · exact cut_refl _
  · exact cut_refl _
  · exact cut_refl _
  · intro m
    rw [execute_eq, execute_eq]
    have htable : (config.withOps ops).table = config.table := rfl
    rw [htable]
    split
    · cases config.table.handler? byte with
      | none => exact .inl rfl
      | some handler => exact cut_run hle byte handler m
    · exact .inl rfl

theorem cut_runOpcode (hle : ops ≤ config.limits.maxOps) (byte : UInt8) :
    Cut ops (runOpcode (config.withOps ops) byte) (runOpcode config byte) := by
  unfold runOpcode
  split
  · exact cut_refl _
  · refine cut_bind ?_ ?_ fun _ => cut_dispatch hle byte
    · cases Opcode.isCounted byte with
      | true => exact cut_charge hle 1
      | false => exact cut_refl _
    · cases Opcode.isCounted byte with
      | true => exact silent_charge _ 1
      | false => exact silent_pure ()

theorem cut_step (hle : ops ≤ config.limits.maxOps) (entry : Entry) :
    Cut ops (step (config.withOps ops) entry) (step config entry) := by
  have hannounce : Silent (announce entry) := by
    intro m a m' h
    cases h
    rfl
  refine cut_bind (cut_refl _) hannounce fun _ => cut_bind_same ?_ _
  match entry with
  | .command (.push data) => exact cut_refl _
  | .command (.opcode byte) => exact cut_runOpcode hle byte
  | .witness data => exact cut_refl _

/-- A run takes no question back. -/
theorem asks_run (env : Env) (m : Machine) :
    m.frame.Asks env.sighash (left (run { env with }) m).frame := by
  have hmet := (Contract.payment_covers env).run m
  unfold left
  cases hrun : m.run { env with } with
  | ok _ m' =>
    rw [hrun] at hmet
    exact hmet.asks
  | error e m' =>
    rw [hrun] at hmet
    exact hmet.asks

/-- With fewer operations an evaluation stops, having asked the first of the questions. -/
def StopsEarly (config : Config) (ops : Nat) (m : Machine) : Prop :=
  ∃ m', m.run (config.withOps ops) = .error .opCount m' ∧ ops < m'.frame.opCount ∧
    m'.frame.Asks config.sighash (left (run config) m).frame

/-- A run stops early if its next step is cut. -/
theorem stopsEarly_of_cut {entry : Entry} {rest : List Entry} {m' : Machine}
    (hp : m.pending = entry :: rest)
    (hcut : step (Config.withOps { env with } ops) entry { m with pending := rest } =
      .error .opCount m')
    (hops : ops < m'.frame.opCount) (hasked : m'.frame.asked = m.frame.asked) :
    m.StopsEarly { env with } ops := by
  refine ⟨m', ?_, hops, ?_⟩
  · rw [run_of_cons hp, hcut]
  · exact (Frame.Asks.of_eq hasked.symm).trans (asks_run env m)

/-- With fewer operations a run is the same or stops early. -/
theorem run_of_fewer_ops (hle : ops ≤ env.limits.maxOps) (m : Machine) :
    m.run (Config.withOps { env with } ops) = m.run { env with } ∨
      m.StopsEarly { env with } ops := by
  have hcuts (entry : Entry) :
      Cut ops (step (Config.withOps { env with } ops) entry) (step { env with } entry) :=
    cut_step hle entry
  induction m using Machine.run.induct { env with } with
  | case1 m hnil =>
    left
    rw [run_of_nil hnil, run_of_nil hnil]
  | case2 m entry rest hp e next herror =>
    rcases hcuts entry { m with pending := rest } with hsame | ⟨m', hcut, hops, hasked⟩
    · left
      rw [run_of_cons hp, run_of_cons hp, hsame, herror]
    · exact .inr (stopsEarly_of_cut hp hcut hops hasked)
  | case3 m entry rest hp _ next hok ih =>
    rcases hcuts entry { m with pending := rest } with hsame | ⟨m', hcut, hops, hasked⟩
    · rw [hok] at hsame
      have hlow : m.run (Config.withOps { env with } ops) =
          next.run (Config.withOps { env with } ops) := by
        rw [run_of_cons hp, hsame]
      have hhigh : m.run { env with } = next.run { env with } := by
        rw [run_of_cons hp, hok]
      unfold StopsEarly left
      rw [hlow, hhigh]
      exact ih
    · exact .inr (stopsEarly_of_cut hp hcut hops hasked)

end Machine

/-! ## Evaluations -/

section Evaluation

variable {script : Script} {witness : List Bytes} {pool : BufferPool} {ops : Nat}

/-- One outcome is that of the evaluation with the other outcome if it is stopped as soon as more than
`ops` operations are used up. -/
def Outcome.CutOf (ops : Nat) (outcome full : Outcome) : Prop :=
  outcome = full ∨ outcome.result = .error .opCount ∧ ops < outcome.machine.frame.opCount ∧
    outcome.queries <+: full.queries

/-- However an evaluation ends, it has paid for its questions. -/
theorem halts_evaluateWith (env : Env) (script : Script) (witness : List Bytes) (pool : BufferPool) :
    (Frame.new env.limits).Halts env 0 (evaluateWith { env with } script witness pool).machine.frame := by
  have hmet := (Contract.payment_covers env).evaluateWith script witness pool
  unfold Contract.MetBy at hmet
  split at hmet
  · exact hmet.halts
  · exact hmet

/-- Payment from the start on bounds the questions. -/
theorem Frame.Halts.checks_le {frame : Frame} (h : (Frame.new env.limits).Halts env 0 frame) :
    frame.checks ≤ frame.opCount ∧ frame.checks ≤ env.limits.maxOps := by
  have hcovered := h.covered
  have hwithin := h.within (Nat.zero_le _)
  have hnone : (Frame.new env.limits).checks = 0 := rfl
  have hzero : (Frame.new env.limits).opCount = 0 := rfl
  omega

theorem pays_reached {n : Nat} {m : Machine}
    (h : reached? { env with } script witness pool n = some m) :
    (Frame.new env.limits).Pays env 0 0 m.frame :=
  (Contract.payment_covers env).after (reached?_eq_some h).2

/-- What an evaluation does that is allowed fewer operations is what the evaluation does until it
exceeds them. -/
theorem evaluateWith_of_fewer_ops (hle : ops ≤ env.limits.maxOps) :
    (evaluateWith (Config.withOps { env with } ops) script witness pool).CutOf ops
      (evaluateWith { env with } script witness pool) := by
  by_cases hsize : env.limits.maxCommands < script.length
  · rw [evaluateWith_of_oversized _ hsize, evaluateWith_of_oversized _ hsize]
    exact .inl rfl
  · have hfits := Nat.le_of_not_lt hsize
    rw [evaluateWith_of_fits _ hfits, evaluateWith_of_fits _ hfits]
    have hstart : Machine.start (Config.withOps { env with } ops).limits script witness =
        .start env.limits script witness := rfl
    rw [hstart]
    generalize ({ Machine.start env.limits script witness with pool } : Machine) = m
    rcases run_of_fewer_ops hle m with hsame | ⟨m', hcut, hops, more, hmore, -⟩
    · rw [hsame]
      exact .inl rfl
    · rw [hcut]
      refine .inr ⟨rfl, hops, more.reverse, ?_⟩
      rw [Outcome.queries, Frame.queries, ← List.reverse_append, ← hmore]
      unfold left
      cases m.run { env with } <;> rfl

end Evaluation

/-- Questions about signatures are bounded by the operations that are allowed: an evaluation, whether it
succeeds or fails, asks at most so many, and only about its own digest. This is because at any moment at
most as many have been asked as operations are used up: after every step and at the end, and for any
number of operations, until more than that number are used up. -/
theorem signature_checks_within_budget (env : Env) (script : Script) (witness : List Bytes)
    (pool : BufferPool) :
    let outcome := evaluateWith { env with } script witness pool
    outcome.machine.frame.checks ≤ env.limits.maxOps ∧
      (∀ sig key digest, .signature sig key digest ∈ outcome.queries → digest = env.sighash) ∧
      outcome.machine.frame.checks ≤ outcome.machine.frame.opCount ∧
      (∀ n m, reached? { env with } script witness pool n = some m →
        m.frame.checks ≤ m.frame.opCount ∧ m.frame.opCount ≤ env.limits.maxOps) ∧
      ∀ ops ≤ env.limits.maxOps,
        let stopped := evaluateWith (Config.withOps { env with } ops) script witness pool
        stopped.CutOf ops outcome ∧ stopped.machine.frame.checks ≤ ops := by
  intro outcome
  have hhalts := halts_evaluateWith env script witness pool
  refine ⟨hhalts.checks_le.2, ?_, hhalts.checks_le.1, ?_, ?_⟩
  · intro sig key digest hquery
    obtain ⟨more, hmore, hof⟩ := hhalts.asks
    have hasked : .signature sig key digest ∈ more := by
      rwa [Outcome.queries, Frame.queries, List.mem_reverse, hmore, Frame.new, List.append_nil]
        at hquery
    exact of_decide_eq_true (hof _ hasked)
  · intro n m hreached
    have hpays := pays_reached hreached
    exact ⟨hpays.halts.checks_le.1, hpays.within (Nat.zero_le _)⟩
  · intro ops hle stopped
    refine ⟨evaluateWith_of_fewer_ops hle, ?_⟩
    exact (halts_evaluateWith (Config.withOps { env with } ops).toEnv script witness pool).checks_le.2

end CoinScript
