import CoinScript.Eval.Budget
import CoinScript.Eval.Weight

/-!
# Every step makes progress

Although programs can grow while they run, every step that succeeds lowers a measure: the operations
that are left; if these stay the same, the witness that has not been taken; and if this stays too, the
weight in front of the first counted opcode. A script that is redeemed weighs less than the push it
came from, and what a witness program puts behind begins with a counted opcode unless it takes the
witness.

The measure rests on handlers that never give operations back. Where neither rule can change the program,
any table will do: every step makes the program shorter.
-/

namespace CoinScript.Machine

variable {α η : Type} [Executable η]

-- ---------------------------------------------------------------------------
-- What the parts of a step leave
-- ---------------------------------------------------------------------------

theorem bind_eq_ok {β : Type} {x : Step α} {f : α → Step β} {b : β} {m m' : Machine}
    (h : (x >>= f) m = .ok b m') : ∃ a next, x m = .ok a next ∧ f a next = .ok b m' := by
  simp only [bind, EStateM.bind] at h
  cases hx : x m with
  | ok a next => rw [hx] at h; exact ⟨a, next, rfl, h⟩
  | error e next => rw [hx] at h; cases h

theorem act_eq_ok {x : Action α} {a : α} {m m' : Machine} (h : act x m = .ok a m') :
    ∃ frame, x m.frame = .ok a frame ∧ m' = { m with frame } := by
  unfold act at h
  cases hx : x m.frame with
  | ok b frame => rw [hx] at h; cases h; exact ⟨frame, rfl, rfl⟩
  | error e frame => rw [hx] at h; cases h

theorem act_pop_eq_ok {top : Bytes} {m m' : Machine} (h : act Action.pop m = .ok top m') :
    ∃ rest, m.frame.stack.elements = top :: rest
      ∧ m' = { m with frame := { m.frame with stack := .ofList rest m.frame.stack.capacity } } := by
  obtain ⟨frame, hf, rfl⟩ := act_eq_ok h
  unfold Action.pop Action.take at hf
  cases hs : m.frame.stack.elements with
  | nil => rw [Stack.pop_of_nil hs] at hf; cases hf
  | cons first rest =>
    rw [Stack.pop_of_cons hs] at hf
    cases hf
    exact ⟨rest, rfl, rfl⟩

theorem act_drop_eq_ok {m m' : Machine} (h : act Action.drop m = .ok () m') :
    ∃ frame, m' = { m with frame } ∧ frame.opCount = m.frame.opCount := by
  obtain ⟨frame, hf, rfl⟩ := act_eq_ok h
  refine ⟨frame, rfl, ?_⟩
  simp only [Action.drop, Action.pop, Action.take, bind, EStateM.bind, pure, EStateM.pure] at hf
  cases hs : m.frame.stack.elements with
  | nil => simp [Stack.pop_of_nil hs] at hf
  | cons first rest => simp only [Stack.pop_of_cons hs] at hf; cases hf; rfl

theorem act_push_eq_ok {data : Bytes} {m m' : Machine} (h : act (Action.push data) m = .ok () m') :
    m' = { m with
      frame := { m.frame with
        stack := .ofList (data :: m.frame.stack.elements) m.frame.stack.capacity } } := by
  obtain ⟨frame, hf, rfl⟩ := act_eq_ok h
  simp only [Action.push, Action.alter, Action.take, Stack.push_eq] at hf
  by_cases hroom : m.frame.stack.length < m.frame.stack.capacity
  · simp only [hroom, if_true, Except.map] at hf
    cases hf
    rfl
  · simp [hroom, Except.map] at hf

theorem onlyIf_ok {condition : Bool} {x : Step Unit} {m m' : Machine}
    (h : onlyIf condition x m = .ok () m') :
    (condition = true ∧ x m = .ok () m') ∨ (condition = false ∧ m = m') := by
  cases condition with
  | true => exact .inl ⟨rfl, h⟩
  | false =>
    cases h
    exact .inr ⟨rfl, rfl⟩

theorem parseInjected_eq_ok {body : Bytes} {script : Script} {m m' : Machine}
    (h : parseInjected body m = .ok script m') :
    script.weight ≤ body.length ∧ ∃ pool, m' = { m with pool } := by
  unfold parseInjected at h
  cases hp : Script.parseRawWith m.pool body with
  | mk result pool =>
    rw [hp] at h
    cases result with
    | error e => cases h
    | ok parsed =>
      cases h
      exact ⟨Script.weight_of_parseRawWith hp, pool, rfl⟩

theorem runNext_eq_ok {limits : Limits} {entries : List Entry} {m m' : Machine}
    (h : runNext limits entries m = .ok () m') : m' = { m with pending := entries ++ m.pending } := by
  unfold runNext at h
  split at h
  · cases h
  · cases h; rfl

theorem runLast_eq_ok {limits : Limits} {entries : List Entry} {m m' : Machine}
    (h : runLast limits entries m = .ok () m') : m' = { m with pending := m.pending ++ entries } := by
  unfold runLast at h
  split at h
  · cases h
  · cases h; rfl

-- ---------------------------------------------------------------------------
-- Pushes
-- ---------------------------------------------------------------------------

/-- What a push of at most `bound` bytes may do to the rest of the program: the operations used stay
the same, and either the witness is taken, or it stays and no more than `bound` is added in front of
the first counted opcode. -/
structure Grows (bound : Nat) (m m' : Machine) : Prop where
  opCount_eq : m'.frame.opCount = m.frame.opCount
  witness_or : (m.witness ≠ [] ∧ m'.witness = []) ∨
    (m'.witness = m.witness ∧ Entry.leadWeight m'.pending ≤ Entry.leadWeight m.pending + bound)

theorem Grows.refl (m : Machine) : Grows 0 m m := ⟨rfl, .inr ⟨rfl, Nat.le_refl _⟩⟩

theorem Grows.trans {a b : Nat} {m₁ m₂ m₃ : Machine} (h : Grows a m₁ m₂) (h' : Grows b m₂ m₃) :
    Grows (a + b) m₁ m₃ := by
  refine ⟨h'.opCount_eq.trans h.opCount_eq, ?_⟩
  rcases h.witness_or with ⟨hne, hnil⟩ | ⟨heq, hle⟩
  · refine .inl ⟨hne, ?_⟩
    rcases h'.witness_or with ⟨hne', -⟩ | ⟨heq', -⟩
    · exact absurd hnil hne'
    · rw [heq', hnil]
  · rcases h'.witness_or with ⟨hne', hnil'⟩ | ⟨heq', hle'⟩
    · exact .inl ⟨heq ▸ hne', hnil'⟩
    · exact .inr ⟨heq'.trans heq, by omega⟩

theorem grows_redeem {limits : Limits} {hash : Digest 20} {m m' : Machine} {top : Bytes}
    {rest : List Bytes} (hs : m.frame.stack.elements = top :: rest)
    (h : redeem limits hash m = .ok () m') : Grows top.length m m' := by
  unfold redeem at h
  obtain ⟨_, m₁, h₁, h⟩ := bind_eq_ok h
  cases h₁
  obtain ⟨body, m₂, h₂, h⟩ := bind_eq_ok h
  obtain ⟨left, hbody, rfl⟩ := act_pop_eq_ok h₂
  simp only [hs, List.cons.injEq] at hbody
  obtain ⟨rfl, rfl⟩ := hbody
  split at h
  · obtain ⟨script, m₃, h₃, h⟩ := bind_eq_ok h
    obtain ⟨hweight, pool, rfl⟩ := parseInjected_eq_ok h₃
    obtain ⟨_, m₄, h₄, h⟩ := bind_eq_ok h
    cases h₄
    cases runNext_eq_ok h
    refine ⟨rfl, .inr ⟨rfl, ?_⟩⟩
    have := Entry.leadWeight_script script
    simp only [List.append_nil]
    omega
  · cases h

theorem grows_redeemPending {limits : Limits} {m m' : Machine} {top : Bytes} {rest : List Bytes}
    (hs : m.frame.stack.elements = top :: rest) (h : redeemPending limits m = .ok () m') :
    Grows top.length m m' := by
  unfold redeemPending at h
  obtain ⟨_, m₁, h₁, h⟩ := bind_eq_ok h
  cases h₁
  cases hp : m.pendingHash? with
  | some hash => rw [hp] at h; exact grows_redeem hs h
  | none => rw [hp] at h; cases h; exact ⟨rfl, .inr ⟨rfl, by omega⟩⟩

theorem grows_expandKey {limits : Limits} {hash : Digest 20} {m m' : Machine}
    (h : expandKey limits hash m = .ok () m') : Grows 0 m m' := by
  unfold expandKey at h
  obtain ⟨witness, m₁, h₁, h⟩ := bind_eq_ok h
  cases h₁
  obtain ⟨_, m₂, h₂, h⟩ := bind_eq_ok h
  cases h₂
  cases runLast_eq_ok h
  refine ⟨rfl, ?_⟩
  cases hw : m.witness with
  | cons first more => exact .inl ⟨by simp, rfl⟩
  | nil =>
    refine .inr ⟨rfl, Nat.le_of_eq ?_⟩
    exact Entry.leadWeight_append_counted _ _ (by decide)

theorem grows_expandScript {limits : Limits} {hash : Digest 32} {m m' : Machine}
    (h : expandScript limits hash m = .ok () m') : Grows 0 m m' := by
  unfold expandScript at h
  obtain ⟨witness, m₁, h₁, h⟩ := bind_eq_ok h
  cases h₁
  cases hlast : m.witness.getLast? with
  | none => rw [hlast] at h; cases h
  | some body =>
    rw [hlast] at h
    have hne : m.witness ≠ [] := by
      intro hnil
      simp [hnil] at hlast
    simp only at h
    split at h
    · obtain ⟨script, m₂, h₂, h⟩ := bind_eq_ok h
      obtain ⟨-, pool, rfl⟩ := parseInjected_eq_ok h₂
      obtain ⟨_, m₃, h₃, h⟩ := bind_eq_ok h
      cases h₃
      cases runLast_eq_ok h
      exact ⟨rfl, .inl ⟨hne, rfl⟩⟩
    · cases h

theorem grows_expandWitness {limits : Limits} {m m' : Machine}
    (h : expandWitness limits m = .ok () m') : Grows 0 m m' := by
  unfold expandWitness at h
  obtain ⟨_, m₁, h₁, h⟩ := bind_eq_ok h
  cases h₁
  cases hp : witnessProgram? m.frame.stack with
  | some program =>
    rw [hp] at h
    obtain ⟨_, m₂, h₂, h⟩ := bind_eq_ok h
    obtain ⟨frame₂, rfl, hops₂⟩ := act_drop_eq_ok h₂
    obtain ⟨_, m₃, h₃, h⟩ := bind_eq_ok h
    obtain ⟨frame₃, rfl, hops₃⟩ := act_drop_eq_ok h₃
    have hgrows : ∀ program, expand limits program { m with frame := frame₃ } = .ok () m' →
        Grows 0 { m with frame := frame₃ } m' := by
      intro program hp
      cases program with
      | pubKeyHash hash => exact grows_expandKey hp
      | scriptHash hash => exact grows_expandScript hp
    have := hgrows _ h
    exact ⟨this.opCount_eq.trans (hops₃.trans hops₂), this.witness_or⟩
  | none => rw [hp] at h; cases h; exact Grows.refl m

theorem grows_pushData {env : Env} {scripted : Bool} {data : Bytes} {m m' : Machine}
    (h : pushData env scripted data m = .ok () m') : Grows data.length m m' := by
  unfold pushData at h
  split at h
  · cases h
  · obtain ⟨_, m₁, h₁, h⟩ := bind_eq_ok h
    cases h₁
    split at h
    · cases h
      exact ⟨rfl, .inr ⟨rfl, by omega⟩⟩
    · split at h
      · cases h
      · obtain ⟨_, m₂, h₂, h⟩ := bind_eq_ok h
        have hpush := act_push_eq_ok h₂
        obtain ⟨_, m₃, h₃, h⟩ := bind_eq_ok h
        have hredeem : Grows data.length m₂ m₃ := by
          rcases onlyIf_ok h₃ with ⟨-, hrule⟩ | ⟨-, rfl⟩
          · exact grows_redeemPending (by rw [hpush, Stack.elements_ofList]) hrule
          · exact ⟨rfl, .inr ⟨rfl, by omega⟩⟩
        have hexpand : Grows 0 m₃ m' := by
          rcases onlyIf_ok h with ⟨-, hrule⟩ | ⟨-, rfl⟩
          · exact grows_expandWitness hrule
          · exact Grows.refl _
        have := hredeem.trans hexpand
        subst hpush
        exact ⟨this.opCount_eq, this.witness_or⟩

-- ---------------------------------------------------------------------------
-- Opcodes
-- ---------------------------------------------------------------------------

theorem charge_ok {limits : Limits} {m m' : Machine}
    (h : act (Action.charge limits 1) m = .ok () m') :
    m.frame.opCount < limits.maxOps ∧
      m' = { m with frame := { m.frame with opCount := m.frame.opCount + 1 } } := by
  obtain ⟨frame, hf, rfl⟩ := act_eq_ok h
  simp only [Action.charge] at hf
  split at hf
  · cases hf
  · rename_i hops
    cases hf
    exact ⟨by omega, rfl⟩

theorem execute_eq (config : Config η) (byte : UInt8) (m : Machine) :
    execute config byte m =
      if m.isExecuting then
        match config.table.handler? byte with
        | none => .error (.unknownOpcode byte) m
        | some handler => act (Executable.run config.toEnv byte handler) m
      else .ok () m := by
  have hget : execute config byte m = (if m.isExecuting then
        match config.table.handler? byte with
        | none => throw (.unknownOpcode byte)
        | some handler => act (Executable.run config.toEnv byte handler)
      else pure () : Step Unit) m := rfl
  rw [hget]
  split
  · cases config.table.handler? byte <;> rfl
  · rfl

/-- An opcode that is executed has a handler, which succeeds on the stacks as they are. -/
theorem execute_ok {config : Config η} {byte : UInt8} {m m' : Machine}
    (h : execute config byte m = .ok () m') :
    m' = { m with frame := m'.frame } ∧
      (m.isExecuting = false ∧ m'.frame = m.frame ∨
        m.isExecuting = true ∧ ∃ handler, config.table.handler? byte = some handler ∧
          Executable.run config.toEnv byte handler m.frame = .ok () m'.frame) := by
  rw [execute_eq] at h
  split at h
  · rename_i hexec
    cases hh : config.table.handler? byte with
    | none =>
      rw [hh] at h
      cases h
    | some handler =>
      rw [hh] at h
      obtain ⟨frame, hrun, rfl⟩ := act_eq_ok h
      exact ⟨rfl, .inr ⟨hexec, handler, rfl, hrun⟩⟩
  · rename_i hexec
    cases h
    exact ⟨rfl, .inl ⟨by simpa using hexec, rfl⟩⟩

/-- Flow control or the handler: there is nothing else that an opcode does. -/
theorem dispatch_cases (config : Config η) (byte : UInt8) :
    (∃ expected, dispatch config byte = openBranch expected) ∨ dispatch config byte = flipBranch
      ∨ dispatch config byte = closeBranch ∨ dispatch config byte = execute config byte := by
  unfold dispatch
  split
  · exact .inl ⟨_, rfl⟩
  · exact .inl ⟨_, rfl⟩
  · exact .inr (.inl rfl)
  · exact .inr (.inr (.inl rfl))
  · exact .inr (.inr (.inr rfl))

/-- An opcode changes nothing but the stacks and the open conditionals, and the operations used only as
its handler does. -/
theorem dispatch_ok {config : Config η} {byte : UInt8} {m m' : Machine}
    (h : dispatch config byte m = .ok () m') :
    m' = { m with frame := m'.frame, branches := m'.branches }
      ∧ (m'.frame.opCount = m.frame.opCount ∨ ∃ handler, config.table.handler? byte = some handler
          ∧ Executable.run config.toEnv byte handler m.frame = .ok () m'.frame) := by
  rcases dispatch_cases config byte with ⟨expected, hd⟩ | hd | hd | hd <;> rw [hd] at h
  · unfold openBranch at h
    split at h
    · split at h
      · cases h
      · cases h; exact ⟨rfl, .inl rfl⟩
    · cases h; exact ⟨rfl, .inl rfl⟩
  · unfold flipBranch at h
    split at h
    · cases h
    · cases h; exact ⟨rfl, .inl rfl⟩
  · unfold closeBranch at h
    split at h
    · cases h
    · cases h; exact ⟨rfl, .inl rfl⟩
  · obtain ⟨hm, ⟨-, hframe⟩ | ⟨-, hhandler⟩⟩ := execute_ok h
    · exact ⟨by rw [hm], .inl (by rw [hframe])⟩
    · exact ⟨by rw [hm], .inr hhandler⟩

/-- An opcode that succeeds is not forbidden. It is counted, and then dispatched. -/
theorem runOpcode_ok {config : Config η} {byte : UInt8} {m m' : Machine}
    (h : runOpcode config byte m = .ok () m') :
    forbidden? byte = none ∧ ∃ count,
      (Opcode.isCounted byte = true ∧ m.frame.opCount < config.limits.maxOps ∧
          count = m.frame.opCount + 1 ∨
        Opcode.isCounted byte = false ∧ count = m.frame.opCount) ∧
      dispatch config byte { m with frame := { m.frame with opCount := count } } = .ok () m' := by
  unfold runOpcode at h
  cases hf : forbidden? byte with
  | some e =>
    rw [hf] at h
    cases h
  | none =>
    rw [hf] at h
    refine ⟨rfl, ?_⟩
    obtain ⟨_, m₁, h₁, h⟩ := bind_eq_ok h
    rcases onlyIf_ok h₁ with ⟨hc, h₁⟩ | ⟨hc, rfl⟩
    · obtain ⟨hops, rfl⟩ := charge_ok h₁
      exact ⟨_, .inl ⟨hc, hops, rfl⟩, h⟩
    · exact ⟨_, .inr ⟨hc, rfl⟩, h⟩

theorem dispatch_spends {config : Config} {byte : UInt8} {m m' : Machine}
    (h : dispatch config byte m = .ok () m') :
    m'.pending = m.pending ∧ m'.witness = m.witness ∧ m.frame.opCount ≤ m'.frame.opCount := by
  obtain ⟨hm, hops⟩ := dispatch_ok h
  refine ⟨by rw [hm], by rw [hm], ?_⟩
  rcases hops with hsame | ⟨handler, -, hrun⟩
  · exact Nat.le_of_eq hsame.symm
  · have hspends := Handler.spends_run config.toEnv byte handler m.frame
    simpa only [Action.after, show handler.run config.toEnv byte m.frame = _ from hrun] using hspends

/-- An opcode leaves program and witness alone; a counted one uses up at least one operation. -/
theorem runOpcode_spends {config : Config} {byte : UInt8} {m m' : Machine}
    (h : runOpcode config byte m = .ok () m') :
    m'.pending = m.pending ∧ m'.witness = m.witness ∧ m.frame.opCount ≤ m'.frame.opCount
      ∧ (Opcode.isCounted byte →
          m.frame.opCount < config.limits.maxOps ∧ m.frame.opCount < m'.frame.opCount) := by
  obtain ⟨-, count, hcount, hdispatch⟩ := runOpcode_ok h
  obtain ⟨hpending, hwitness, hops⟩ := dispatch_spends hdispatch
  simp only at hpending hwitness hops
  rcases hcount with ⟨-, hlt, rfl⟩ | ⟨hfree, rfl⟩
  · exact ⟨hpending, hwitness, by omega, fun _ => ⟨hlt, by omega⟩⟩
  · exact ⟨hpending, hwitness, hops, fun hcounted => by simp [hfree] at hcounted⟩

-- ---------------------------------------------------------------------------
-- Steps
-- ---------------------------------------------------------------------------

/-- The measure that every step lowers, in lexicographic order. -/
def measure (config : Config) (m : Machine) : Nat × Nat × Nat :=
  (config.limits.maxOps - m.frame.opCount, m.witness.length, Entry.leadWeight m.pending)

/-- Which measures are lower than others. -/
def Lower : Nat × Nat × Nat → Nat × Nat × Nat → Prop := Prod.Lex (· < ·) (Prod.Lex (· < ·) (· < ·))

theorem lower_of_grows {config : Config} {bound : Nat} {entry : Entry} {m m' : Machine}
    (hweight : bound < entry.weight) (hcounted : entry.isCounted = false) (h : Grows bound m m') :
    Lower (measure config m') (measure config { m with pending := entry :: m.pending }) := by
  unfold measure
  rw [h.opCount_eq]
  refine Prod.Lex.right _ ?_
  rcases h.witness_or with ⟨hne, hnil⟩ | ⟨heq, hle⟩
  · refine Prod.Lex.left _ _ ?_
    rw [hnil]
    exact List.length_pos_iff.2 hne
  · rw [heq]
    refine Prod.Lex.right _ ?_
    simp only [Entry.leadWeight, hcounted] at hle ⊢
    simp only [Bool.false_eq_true, if_false]
    omega

theorem lower_of_runOpcode {config : Config} {byte : UInt8} {m m' : Machine}
    (h : runOpcode config byte m = .ok () m') :
    Lower (measure config m')
      (measure config { m with pending := .command (.opcode byte) :: m.pending }) := by
  obtain ⟨hpending, hwitness, hops, hcounted⟩ := runOpcode_spends h
  unfold measure
  rw [hpending, hwitness]
  by_cases hc : Opcode.isCounted byte = true
  · refine Prod.Lex.left _ _ ?_
    have := hcounted hc
    simp only
    omega
  · have hlead : Entry.leadWeight (.command (.opcode byte) :: m.pending)
        = 1 + Entry.leadWeight m.pending := by
      simp [Entry.leadWeight, Entry.isCounted, hc, Entry.weight, Command.weight]
    rcases Nat.lt_or_ge (config.limits.maxOps - m'.frame.opCount)
        (config.limits.maxOps - m.frame.opCount) with hlt | hge
    · exact Prod.Lex.left _ _ hlt
    · have heq : config.limits.maxOps - m'.frame.opCount
          = config.limits.maxOps - m.frame.opCount := by omega
      simp only [heq, hlead]
      exact Prod.Lex.right _ (Prod.Lex.right _ (by omega))

/-- The machine with one more event. -/
def reported (m : Machine) (event : Event) : Machine := { m with events := event :: m.events }

/-- A step that succeeds has run its entry, and the stacks are not too large then. -/
theorem step_ok {config : Config η} {entry : Entry} {m m' : Machine}
    (h : step config entry m = .ok () m') :
    runEntry config entry (m.reported (entryEvent m.frame.stack.length entry)) = .ok () m' ∧
      m'.frame.size ≤ config.limits.maxStackSize := by
  unfold step at h
  obtain ⟨_, m₁, h₁, h⟩ := bind_eq_ok h
  cases h₁
  obtain ⟨_, m₂, h₂, h⟩ := bind_eq_ok h
  unfold checkSize at h
  split at h
  · cases h
  · rename_i hsize
    cases h
    exact ⟨h₂, Nat.le_of_not_lt hsize⟩

/-- Every step that succeeds lowers the measure. -/
theorem lower_of_step {config : Config} {entry : Entry} {rest : List Entry} {m m' : Machine}
    (hp : m.pending = entry :: rest) (h : step config entry { m with pending := rest } = .ok () m') :
    Lower (measure config m') (measure config m) := by
  have hm : measure config m = measure config { m with pending := entry :: rest } := by
    simp only [measure, hp]
  obtain ⟨hrun, -⟩ := step_ok h
  rw [hm]
  match entry with
  | .command (.push data) =>
    exact lower_of_grows (by simp [Entry.weight, Command.weight]) rfl (grows_pushData hrun)
  | .command (.opcode byte) => exact lower_of_runOpcode hrun
  | .witness data =>
    exact lower_of_grows (by simp [Entry.weight]) rfl (grows_pushData hrun)

-- ---------------------------------------------------------------------------
-- Steps that leave the program alone
-- ---------------------------------------------------------------------------

theorem pending_kept_of_pushData {env : Env} {scripted : Bool} {data : Bytes} {m m' : Machine}
    (hp2sh : env.flags.p2sh = false) (hwitness : env.flags.witness = false)
    (h : pushData env scripted data m = .ok () m') : m'.pending = m.pending := by
  unfold pushData at h
  split at h
  · cases h
  · obtain ⟨_, m₁, h₁, h⟩ := bind_eq_ok h
    cases h₁
    split at h
    · cases h
      rfl
    · split at h
      · cases h
      · obtain ⟨_, m₂, h₂, h⟩ := bind_eq_ok h
        simp only [hp2sh, hwitness, onlyIf, Bool.false_eq_true, if_false] at h
        cases h
        rw [act_push_eq_ok h₂]

theorem pending_kept_of_runOpcode {config : Config η} {byte : UInt8} {m m' : Machine}
    (h : runOpcode config byte m = .ok () m') : m'.pending = m.pending := by
  obtain ⟨-, count, -, hdispatch⟩ := runOpcode_ok h
  rw [(dispatch_ok hdispatch).1]

/-- Without the two rules that change the program, a step takes its entry off and no more. -/
theorem pending_kept_of_step {config : Config η} {entry : Entry} {m m' : Machine}
    (hp2sh : config.flags.p2sh = false) (hwitness : config.flags.witness = false)
    (h : step config entry m = .ok () m') : m'.pending = m.pending := by
  obtain ⟨hrun, -⟩ := step_ok h
  match entry with
  | .command (.push data) => exact (pending_kept_of_pushData hp2sh hwitness hrun :)
  | .command (.opcode byte) => exact (pending_kept_of_runOpcode hrun :)
  | .witness data => exact (pending_kept_of_pushData hp2sh hwitness hrun :)

-- ---------------------------------------------------------------------------
-- Runs that end
-- ---------------------------------------------------------------------------

/-- A step leads from the second machine to the first. -/
def Next (config : Config η) (m' m : Machine) : Prop :=
  ∃ entry rest, m.pending = entry :: rest ∧ step config entry { m with pending := rest } = .ok () m'

end CoinScript.Machine

namespace CoinScript.Config

open CoinScript.Machine

/-- All runs end. Handlers that give operations back could keep a program growing for ever. -/
class Ends {η : Type} [Executable η] (config : Config η) : Prop where
  wellFounded : WellFounded (Next config)

/-- With the handlers there are, all runs end. -/
instance (config : Config) : config.Ends where
  wellFounded := by
    have hlower : WellFounded Lower := (Prod.lex Nat.lt_wfRel (Prod.lex Nat.lt_wfRel Nat.lt_wfRel)).wf
    refine Subrelation.wf ?_ (InvImage.wf (measure config) hlower)
    rintro m' m ⟨entry, rest, hp, hstep⟩
    exact lower_of_step hp hstep

/-- Without the two rules that change the program, all runs end whatever is in the table. -/
theorem ends_of_no_rules {η : Type} [Executable η] {config : Config η}
    (hp2sh : config.flags.p2sh = false) (hwitness : config.flags.witness = false) :
    config.Ends where
  wellFounded := by
    refine Subrelation.wf ?_ (InvImage.wf (fun m : Machine => m.pending.length) Nat.lt_wfRel.wf)
    rintro m' m ⟨entry, rest, hp, hstep⟩
    have hpending := pending_kept_of_step hp2sh hwitness hstep
    simp only [InvImage, hpending, hp, List.length_cons]
    exact Nat.lt_succ_self _

end CoinScript.Config
