import CoinScript.Proofs.Alike
import CoinScript.Proofs.Contracts

/-!
# Sessions

Evaluations share a latch for their codes and a pool of buffers. Between them codes are recorded, and
buffers are borrowed, filled and given back. None of this is seen by an evaluation: it gives the answer
that it gives alone. And an evaluation gives back what it borrows, whether it succeeds or fails.
-/

namespace CoinScript

/-! ## Pools -/

namespace BufferPool

variable {pool pool₁ pool₂ pool₃ : BufferPool} {maxIdle : Nat} {parsed parsed' : Bool}

theorem maxIdle_borrow (pool : BufferPool) (size : Nat) :
    (pool.borrow size).2.maxIdle = pool.maxIdle := by
  unfold borrow
  split <;> rfl

theorem idleCount_borrow (pool : BufferPool) (size : Nat) :
    (pool.borrow size).2.idleCount = pool.idleCount - 1 := by
  unfold borrow
  split <;> simp [idleCount, *]

theorem maxIdle_release (pool : BufferPool) (buffer : Buffer) :
    (pool.release buffer).maxIdle = pool.maxIdle := by
  unfold release
  split <;> rfl

theorem idleCount_release (pool : BufferPool) (buffer : Buffer) :
    (pool.release buffer).idleCount =
      if pool.idleCount < pool.maxIdle then pool.idleCount + 1 else pool.idleCount := by
  unfold release idleCount
  split <;> simp

/-- The buffers that wait are cleared and not too many, and so a buffer that is borrowed is empty. -/
structure Tidy (maxIdle : Nat) (pool : BufferPool) : Prop where
  maxIdle_eq : pool.maxIdle = maxIdle
  idleCount_le : pool.idleCount ≤ maxIdle
  idle_empty : ∀ buffer ∈ pool.idle, buffer.bytes = []
  borrow_empty : ∀ size, (pool.borrow size).1.bytes = []

/-- A pool keeps its buffers cleared by itself. -/
theorem tidy_of_idleCount (hmax : pool.maxIdle = maxIdle) (hcount : pool.idleCount ≤ maxIdle) :
    pool.Tidy maxIdle :=
  ⟨hmax, hcount, pool.idle_empty, pool.borrow_bytes⟩

theorem Tidy.borrow (h : pool.Tidy maxIdle) (size : Nat) : (pool.borrow size).2.Tidy maxIdle := by
  refine tidy_of_idleCount ?_ ?_
  · rw [maxIdle_borrow, h.maxIdle_eq]
  · rw [idleCount_borrow]
    exact Nat.le_trans (Nat.sub_le _ _) h.idleCount_le

theorem Tidy.release (h : pool.Tidy maxIdle) (buffer : Buffer) :
    (pool.release buffer).Tidy maxIdle := by
  refine tidy_of_idleCount ?_ ?_
  · rw [maxIdle_release, h.maxIdle_eq]
  · rw [idleCount_release, h.maxIdle_eq]
    split
    · assumption
    · exact h.idleCount_le

/-! ## What evaluations leave -/

/-- How many buffers wait after an evaluation: as many as before, except that the first script that is
read leaves a buffer for the others, if none was waiting and there is a place for it. -/
def idleAfter (pool : BufferPool) (parsed : Bool) : Nat :=
  if pool.idleCount = 0 ∧ parsed then min 1 pool.maxIdle else pool.idleCount

/-- One pool is what the other becomes in an evaluation that reads scripts or does not. -/
structure Settles (parsed : Bool) (pool pool' : BufferPool) : Prop where
  maxIdle_eq : pool'.maxIdle = pool.maxIdle
  idleCount_eq : pool.idleCount ≤ pool.maxIdle → pool'.idleCount = pool.idleAfter parsed

theorem idleAfter_le (h : pool.idleCount ≤ pool.maxIdle) : pool.idleAfter parsed ≤ pool.maxIdle := by
  unfold idleAfter
  split
  · exact Nat.min_le_right _ _
  · exact h

theorem Settles.refl (pool : BufferPool) : pool.Settles false pool :=
  ⟨rfl, fun _ => by simp [idleAfter]⟩

theorem Settles.trans (h₁ : pool₁.Settles parsed pool₂) (h₂ : pool₂.Settles parsed' pool₃) :
    pool₁.Settles (parsed' || parsed) pool₃ := by
  refine ⟨h₂.maxIdle_eq.trans h₁.maxIdle_eq, fun hle => ?_⟩
  have hcount := h₁.idleCount_eq hle
  have hle₂ : pool₂.idleCount ≤ pool₂.maxIdle := by
    rw [hcount, h₁.maxIdle_eq]
    exact idleAfter_le hle
  rw [h₂.idleCount_eq hle₂]
  unfold idleAfter at hcount ⊢
  rw [hcount, h₁.maxIdle_eq]
  -- a buffer that waits stays, and without a place none waits ever
  cases parsed <;> cases parsed' <;> simp only [Bool.or_true, Bool.or_false, and_true] <;> grind

theorem Settles.tidy (h : pool₁.Settles parsed pool₂) (htidy : pool₁.Tidy maxIdle) :
    pool₂.Tidy maxIdle := by
  have hle : pool₁.idleCount ≤ pool₁.maxIdle := by
    rw [htidy.maxIdle_eq]
    exact htidy.idleCount_le
  refine tidy_of_idleCount ?_ ?_
  · rw [h.maxIdle_eq, htidy.maxIdle_eq]
  · rw [h.idleCount_eq hle, ← htidy.maxIdle_eq]
    exact idleAfter_le hle

/-- The buffer that a script is read in is given back, whether it can be read or not. -/
theorem settles_parseRawWith (pool : BufferPool) (body : Bytes) :
    pool.Settles true (Script.parseRawWith pool body).2 := by
  refine ⟨?_, fun hle => ?_⟩
  · simp only [Script.parseRawWith, maxIdle_release, maxIdle_borrow]
  · simp only [Script.parseRawWith, idleCount_release, maxIdle_borrow, idleCount_borrow, idleAfter,
      and_true]
    split <;> split <;> omega

end BufferPool

theorem Event.not_isParse_of_known {e : EvalError} (h : e.code ≠ .unknownError) :
    (Event.failed e).isParse = false := by
  cases e with
  | injectedScript error => exact absurd rfl h
  | _ => rfl

/-- Buffers are given back, and the events tell whether scripts have been read. -/
def Contract.lending : Contract where
  onOk m m' := ∃ more, m'.events = more ++ m.events ∧ m.pool.Settles (more.any Event.isParse) m'.pool
  onError e m m' := ∃ more, m'.events = more ++ m.events ∧
    m.pool.Settles ((Event.failed e :: more).any Event.isParse) m'.pool
  refl m := ⟨[], rfl, .refl m.pool⟩
  trans := by
    rintro m₁ m₂ m₃ ⟨first, hfirst, hpool⟩ ⟨second, hsecond, hpool'⟩
    refine ⟨second ++ first, ?_, ?_⟩
    · rw [hsecond, hfirst, List.append_assoc]
    · rw [List.any_append]
      exact hpool.trans hpool'
  trans_error := by
    rintro e m₁ m₂ m₃ ⟨first, hfirst, hpool⟩ ⟨second, hsecond, hpool'⟩
    refine ⟨second ++ first, ?_, ?_⟩
    · rw [hsecond, hfirst, List.append_assoc]
    · rw [← List.cons_append, List.any_append]
      exact hpool.trans hpool'

namespace Contract

open Machine

variable {α : Type} {config : Config} {m m' : Machine}

theorem lending_of_eq (hevents : m'.events = m.events) (hpool : m'.pool = m.pool) :
    lending.onOk m m' :=
  ⟨[], hevents, hpool ▸ .refl m.pool⟩

theorem lending_refused {e : EvalError} (h : e.code ≠ .unknownError) (hevents : m'.events = m.events)
    (hpool : m'.pool = m.pool) : lending.onError e m m' := by
  refine ⟨[], hevents, ?_⟩
  rw [List.any_cons, Event.not_isParse_of_known h, hpool]
  exact .refl m.pool

theorem lending_act {env : Env} {credit : Nat} {rest : α → Nat} {x : Action α}
    (h : x.Pays env credit rest) : lending.Holds (act x) :=
  holds_act h (fun _ => lending_of_eq rfl rfl) fun _ hrule =>
    lending_refused (ResultCode.ne_unknownError_of_fixed hrule) rfl rfl

/-- The buffer for a script is given back before anything else happens. -/
theorem lending_reads (body : Bytes) (event : Script → Event)
    (h : ∀ script, (event script).isParse) : lending.Holds (reads body event) := by
  intro m
  have hsettles := BufferPool.settles_parseRawWith m.pool body
  simp only [reads, parseInjected, bind, EStateM.bind]
  cases hparse : Script.parseRawWith m.pool body with
  | mk result pool =>
    rw [hparse] at hsettles
    cases result with
    | ok script =>
      refine ⟨[event script], rfl, ?_⟩
      simpa [h script] using hsettles
    | error e => exact ⟨[], rfl, hsettles⟩

theorem lending_covers (config : Config) : lending.Covers config where
  refused _ _ hknown := lending_refused hknown rfl rfl
  restacked _ _ := lending_of_eq rfl rfl
  rearranged _ _ _ _ := lending_of_eq rfl rfl
  reported m event h := ⟨[event], rfl, by simpa [h] using .refl m.pool⟩
  read _ body event h := lending_reads body event h
  charged := lending_act (Action.pays_charge 1 : Action.Pays config.toEnv 0 _ _)
  executed _ := holds_executed lending_act _ _

end Contract

/-! ## Evaluations -/

section Evaluation

variable (config : Config) (script : Script) (witness : List Bytes) {pool : BufferPool}

/-- How an evaluation ends does not depend on the pool. -/
theorem evaluateWith_result_of_pool (pool pool' : BufferPool) :
    (evaluateWith config script witness pool).result =
      (evaluateWith config script witness pool').result := by
  by_cases hsize : config.limits.maxCommands < script.length
  · rw [evaluateWith_of_oversized config hsize, evaluateWith_of_oversized config hsize]
  · rw [evaluateWith_of_fits config (Nat.le_of_not_lt hsize),
      evaluateWith_of_fits config (Nat.le_of_not_lt hsize)]
    have hrun : Answers True (Machine.Alike (Entry.Alike config.flags))
        (Machine.run config { Machine.start config.limits script witness with pool })
        (Machine.run config { Machine.start config.limits script witness with pool := pool' }) :=
      Machine.answers_run (.refl config.flags) _ _ ⟨.refl _, Entry.alike_of_eq rfl, rfl, rfl⟩
    cases hfirst : Machine.run config { Machine.start config.limits script witness with pool } with
    | ok _ m =>
      rw [hfirst] at hrun
      obtain ⟨m', hsecond, -⟩ := hrun
      rw [hsecond]
    | error e m =>
      rw [hfirst] at hrun
      obtain ⟨m', hsecond⟩ := hrun trivial
      rw [hsecond]

/-- An evaluation leaves the pool as it was, except that it may leave a buffer in it. -/
theorem settles_evaluateWith :
    pool.Settles ((evaluateWith config script witness pool).events.any Event.isParse)
      (evaluateWith config script witness pool).machine.pool := by
  have hmet := (Contract.lending_covers config).evaluateWith script witness pool
  cases hresult : (evaluateWith config script witness pool).result with
  | ok _ =>
    simp only [Contract.MetBy, hresult] at hmet
    obtain ⟨more, hmore, hpool⟩ := hmet
    simp only [Outcome.events, hresult, hmore, List.any_reverse, List.any_cons]
    simpa [Machine.initial, Event.isParse] using hpool
  | error e =>
    simp only [Contract.MetBy, hresult] at hmet
    obtain ⟨more, hmore, hpool⟩ := hmet
    simp only [Outcome.events, hresult, hmore, List.any_reverse, List.any_cons]
    simpa [Machine.initial] using hpool

theorem settles_reached {n : Nat} {m : Machine}
    (h : Machine.reached? config script witness pool n = some m) :
    ∃ parsed, pool.Settles parsed m.pool := by
  obtain ⟨more, -, hpool⟩ := (Contract.lending_covers config).after (Machine.reached?_eq_some h).2
  exact ⟨_, hpool⟩

/-- The answer is yes if and only if the code is success. -/
theorem Outcome.succeeded_iff (outcome : Outcome) : outcome.succeeded ↔ outcome.code = .ok := by
  unfold succeeded code
  cases outcome.result with
  | ok _ => exact ⟨fun _ => rfl, fun _ => rfl⟩
  | error e => exact ⟨nofun, fun h => absurd h e.code_ne.1⟩

/-- The latch holds the code of the evaluation and nothing of what was recorded before. -/
theorem Session.latch_evaluate (session : Session) :
    (session.evaluate config script witness).2.latch =
      ⟨some (session.evaluate config script witness).1.code⟩ :=
  rfl

end Evaluation

/-! ## Histories -/

namespace Session

/-- A session, and the buffers that others have borrowed from its pool, in the order of the loans. -/
structure Shared extends Session where
  loans : List Buffer := []

/-- What is done with a shared session. -/
inductive Operation where
  | record (code : ResultCode)
  | reset
  | borrow (size : Nat)
  | append (loan : Nat) (bytes : Bytes)
  | drop (loan : Nat)
  | evaluate (config : Config) (script : Script) (witness : List Bytes)

namespace Shared

/-- A session in which nothing has been done, with a pool in which so many buffers may wait. -/
def new (maxIdle : Nat) : Shared := { pool := { BufferPool.empty with maxIdle } }

/-- Does something with a shared session. Loans that do not exist are left alone. -/
def perform (shared : Shared) : Operation → Shared
  | .record code => { shared with latch := (shared.latch.record code).2 }
  | .reset => { shared with latch := shared.latch.reset }
  | .borrow size =>
    let (buffer, pool) := shared.pool.borrow size
    { shared with pool, loans := shared.loans ++ [buffer] }
  | .append loan bytes =>
    { shared with loans := shared.loans.modify loan fun buffer => buffer.append bytes }
  | .drop loan =>
    match shared.loans[loan]? with
    | some buffer =>
      { shared with pool := shared.pool.release buffer, loans := shared.loans.eraseIdx loan }
    | none => shared
  | .evaluate config script witness =>
    { shared with toSession := (shared.toSession.evaluate config script witness).2 }

/-- What comes of a session in which all this has been done. -/
def after (maxIdle : Nat) (history : List Operation) : Shared := history.foldl perform (new maxIdle)

variable {maxIdle : Nat} {shared : Shared}

theorem tidy_perform (h : shared.pool.Tidy maxIdle) (operation : Operation) :
    (shared.perform operation).pool.Tidy maxIdle := by
  cases operation with
  | record code => exact h
  | reset => exact h
  | borrow size => exact h.borrow size
  | append loan bytes => exact h
  | drop loan =>
    simp only [perform]
    split
    · exact h.release _
    · exact h
  | evaluate config script witness => exact (settles_evaluateWith config script witness).tidy h

/-- Whatever has been done, the pool is tidy. -/
theorem tidy_after (maxIdle : Nat) (history : List Operation) :
    (after maxIdle history).pool.Tidy maxIdle := by
  have hfold (shared : Shared) (h : shared.pool.Tidy maxIdle) :
      (history.foldl perform shared).pool.Tidy maxIdle := by
    induction history generalizing shared with
    | nil => exact h
    | cons operation history ih => exact ih _ (tidy_perform h operation)
  exact hfold (new maxIdle) (BufferPool.tidy_of_idleCount rfl (Nat.zero_le _))

end Shared

end Session

/-- Evaluations do not influence each other. Whatever has been done with a shared session before, an
evaluation gives the same answer and leaves the same code as alone in a new session, and the answer is
yes if and only if the code is success. The pool is tidy before, at every step and after, and the number
of waiting buffers stays the same, unless none was waiting and a script has been read. -/
theorem evaluate_after_history (maxIdle fresh : Nat) (history : List Session.Operation)
    (config : Config) (script : Script) (witness : List Bytes) :
    let session := (Session.Shared.after maxIdle history).toSession
    let next := session.evaluate config script witness
    let alone := (Session.Shared.new fresh).toSession.evaluate config script witness
    next.1.succeeded = alone.1.succeeded ∧
      next.2.latch = alone.2.latch ∧
      (next.1.succeeded = true ↔ next.2.latch.code? = some .ok) ∧
      session.pool.Tidy maxIdle ∧
      (∀ n m, Machine.reached? config script witness session.pool n = some m →
        m.pool.Tidy maxIdle) ∧
      next.2.pool.Tidy maxIdle ∧
      next.2.pool.idleCount =
        if session.pool.idleCount = 0 ∧ next.1.events.any Event.isParse then min 1 maxIdle
        else session.pool.idleCount := by
  intro session next alone
  have htidy : session.pool.Tidy maxIdle := Session.Shared.tidy_after maxIdle history
  have hresult : next.1.result = alone.1.result :=
    evaluateWith_result_of_pool config script witness _ _
  have hsettles : session.pool.Settles (next.1.events.any Event.isParse) next.2.pool :=
    settles_evaluateWith config script witness
  refine ⟨?_, ?_, ?_, htidy, ?_, hsettles.tidy htidy, ?_⟩
  · rw [Outcome.succeeded, hresult, Outcome.succeeded]
  · rw [Session.latch_evaluate, Session.latch_evaluate, Outcome.code, hresult, Outcome.code]
  · rw [Outcome.succeeded_iff, Session.latch_evaluate, Option.some.injEq]
  · intro n m hreached
    obtain ⟨parsed, hpool⟩ := settles_reached config script witness hreached
    exact hpool.tidy htidy
  · rw [hsettles.idleCount_eq (htidy.maxIdle_eq ▸ htidy.idleCount_le), BufferPool.idleAfter,
      htidy.maxIdle_eq]

/-- A script that is redeemed has been read, whether it could be or not, and leaves a buffer in a pool that
was empty. -/
theorem evaluate_after_history_redeemed :
    let config : Config := { sighash := sha256 [] }
    let session := (Session.Shared.after 16 [.record .opCount]).toSession
    let redeemed := session.evaluate config (.push [0x51] :: Script.p2sh (hash160 [0x51])) []
    let failed := session.evaluate config
      (.push [0x02, 0xaa] :: Script.p2sh (hash160 [0x02, 0xaa])) []
    session.pool.idleCount = 0 ∧
      (redeemed.2.latch.code? = some .ok ∧ redeemed.2.pool.idleCount = 1) ∧
      failed.2.latch.code? = some .unknownError ∧ failed.2.pool.idleCount = 1 := by
  intro config session redeemed failed
  have hredeemed : redeemed.1.code = .ok ∧ redeemed.1.events.any Event.isParse :=
    evaluateWith_of_runIn (fun outcome => outcome.code = .ok ∧ outcome.events.any Event.isParse) 4
      (by decide) (by decide +kernel)
  have hfailed : failed.1.code = .unknownError ∧ failed.1.events.any Event.isParse :=
    evaluateWith_of_runIn
      (fun outcome => outcome.code = .unknownError ∧ outcome.events.any Event.isParse) 4
      (by decide) (by decide +kernel)
  obtain ⟨-, -, -, -, -, -, hidle⟩ := evaluate_after_history 16 16 [.record .opCount] config
    (.push [0x51] :: Script.p2sh (hash160 [0x51])) []
  obtain ⟨-, -, -, -, -, -, hidle'⟩ := evaluate_after_history 16 16 [.record .opCount] config
    (.push [0x02, 0xaa] :: Script.p2sh (hash160 [0x02, 0xaa])) []
  refine ⟨rfl, ⟨congrArg some hredeemed.1, ?_⟩, congrArg some hfailed.1, ?_⟩
  · exact hidle.trans (if_pos ⟨rfl, hredeemed.2⟩)
  · exact hidle'.trans (if_pos ⟨rfl, hfailed.2⟩)

end CoinScript
