import Mathlib
import CoinScript.Proofs.Verdict

/-!
# Steps of a run

A run makes a number of steps that succeed, and then it is at the end of its program or a step fails.
Programs can grow while they run, so that there is an end at all is not plain. The main result bounds
the steps of an evaluation by the operations that are allowed, the bytes of the script and the bytes of
the witness. The bound is linear although scripts that are redeemed and witness programs can nest.
-/

namespace CoinScript

/-! ## What a program can still cost -/

namespace Entry

/-- What entries can still cost: their weight, except that a counted opcode takes one off what is
behind it. When it runs, the operation it uses up pays for that. -/
def load : List Entry → Nat
  | [] => 0
  | entry :: rest => if entry.isCounted then load rest - 1 else entry.weight + load rest

theorem load_append_le (entries more : List Entry) :
    load (entries ++ more) ≤ load entries + load more := by
  induction entries with
  | nil => simp [load]
  | cons entry entries ih =>
    simp only [List.cons_append, load]
    split <;> omega

theorem load_script_le (script : Script) : load (script.map .command) ≤ script.weight := by
  induction script with
  | nil => exact Nat.le_refl _
  | cons command script ih =>
    simp only [List.map_cons, load, Script.weight]
    split
    · omega
    · simp only [weight]
      omega

theorem load_witness (elements : List Bytes) :
    load (elements.map .witness) = (elements.map fun data => data.length + 1).sum := by
  induction elements with
  | nil => rfl
  | cons data elements ih =>
    simp only [List.map_cons, load, isCounted, weight, List.sum_cons, ih]
    rfl

/-- The check of a signature costs less than the push of the hash that it is for. -/
theorem load_p2pkh (hash : Digest 20) : load ((Script.p2pkh hash).map .command) = 19 := by
  have hpush : (Command.push hash.bytes).weight = 21 := by
    simp only [Command.weight, hash.length_bytes]
  simp [Script.p2pkh, load, isCounted, weight, hpush, Command.ofOpcode, Opcode.isCounted,
    Opcode.byte, Opcode.spelling]

theorem load_p2sh (hash : Digest 20) : load ((Script.p2sh hash).map .command) = 20 := by
  have hpush : (Command.push hash.bytes).weight = 21 := by
    simp only [Command.weight, hash.length_bytes]
  simp [Script.p2sh, load, isCounted, weight, hpush, Command.ofOpcode, Opcode.isCounted,
    Opcode.byte, Opcode.spelling]

end Entry

namespace Machine

variable {config : Config} {m m' : Machine} {entry : Entry} {rest : List Entry} {n : Nat}

/-! ## Counting steps -/

/-- The machine after so many steps, if there are as many and all of them succeed. -/
def after? (config : Config) : Nat → Machine → Option Machine
  | 0, m => some m
  | n + 1, m =>
    match m.pending with
    | [] => none
    | entry :: rest =>
      match step config entry { m with pending := rest } with
      | .ok _ next => after? config n next
      | .error _ _ => none

theorem after?_succ (hp : m.pending = entry :: rest)
    (hstep : step config entry { m with pending := rest } = .ok () m') :
    after? config (n + 1) m = after? config n m' := by
  simp only [after?, hp, hstep]

/-- There is a step after the first one only if the first one succeeds. -/
theorem after?_succ_eq_some (h : after? config (n + 1) m = some m') :
    ∃ entry rest next, m.pending = entry :: rest ∧
      step config entry { m with pending := rest } = .ok () next ∧
      after? config n next = some m' := by
  cases hp : m.pending with
  | nil => simp [after?, hp] at h
  | cons entry rest =>
    cases hstep : step config entry { m with pending := rest } with
    | error e next => simp [after?, hp, hstep] at h
    | ok _ next =>
      rw [after?_succ hp hstep] at h
      exact ⟨entry, rest, next, rfl, hstep, h⟩

theorem after?_add (h : after? config n m = some m') (k : Nat) :
    after? config (n + k) m = after? config k m' := by
  induction n generalizing m with
  | zero =>
    cases h
    rw [Nat.zero_add]
  | succ n ih =>
    obtain ⟨entry, rest, next, hp, hstep, h⟩ := after?_succ_eq_some h
    rw [Nat.succ_add, after?_succ hp hstep]
    exact ih h

/-- A run goes through the machine after any number of its steps. -/
theorem run_of_after? (h : after? config n m = some m') : m.run config = m'.run config := by
  induction n generalizing m with
  | zero =>
    cases h
    rfl
  | succ n ih =>
    obtain ⟨entry, rest, next, hp, hstep, h⟩ := after?_succ_eq_some h
    rw [run_of_cons hp, hstep]
    exact ih h

/-- What every step keeps still holds after any number of steps. -/
theorem after?_invariant {P : Machine → Prop}
    (hkept : ∀ m entry rest m', m.pending = entry :: rest →
      step config entry { m with pending := rest } = .ok () m' → P m → P m')
    (h : after? config n m = some m') (hm : P m) : P m' := by
  induction n generalizing m with
  | zero =>
    cases h
    exact hm
  | succ n ih =>
    obtain ⟨entry, rest, next, hp, hstep, h⟩ := after?_succ_eq_some h
    exact ih h (hkept m entry rest next hp hstep hm)

/-- What has been reported stays reported. -/
theorem after?_events (h : after? config n m = some m') : m.events ⊆ m'.events := by
  refine after?_invariant (P := fun next => m.events ⊆ next.events) ?_ h (List.Subset.refl _)
  intro before entry rest next _ hstep hevents
  exact List.Subset.trans hevents (step_events (m := { before with pending := rest }) hstep)

/-- The machine after so many steps of an evaluation, if the script is not too long and the evaluation
makes as many. This is where its next step begins, or its end. -/
def reached? (config : Config) (script : Script) (witness : List Bytes) (pool : BufferPool) (n : Nat) :
    Option Machine :=
  if config.limits.maxCommands < script.length then none
  else after? config n { start config.limits script witness with pool }

theorem reached?_eq_some {script : Script} {witness : List Bytes} {pool : BufferPool}
    (h : reached? config script witness pool n = some m) :
    script.length ≤ config.limits.maxCommands ∧
      after? config n { start config.limits script witness with pool } = some m := by
  unfold reached? at h
  split at h
  · cases h
  · rename_i hsize
    exact ⟨Nat.le_of_not_lt hsize, h⟩

/-- A run stops where nothing is pending or the next step fails, with this result. -/
inductive Stops (config : Config) : Machine → EStateM.Result EvalError Machine Unit → Prop where
  | finished {m : Machine} (hp : m.pending = []) : Stops config m (finish m)
  | failed {m m' : Machine} {entry : Entry} {rest : List Entry} {e : EvalError}
      (hp : m.pending = entry :: rest)
      (hstep : step config entry { m with pending := rest } = .error e m') :
    Stops config m (.error e m')

/-! ## What a machine can still cost -/

/-- What the program and the witness can still cost. -/
def load (m : Machine) : Nat := Entry.load m.pending + Entry.load (m.witness.map .witness)

/-- A script that is redeemed costs no more than its bytes, and the comparison with its hash is gone. -/
theorem load_of_redeemed (h : Redeemed m m') :
    m = m' ∨ ∃ body rest, m.frame.stack.elements = body :: rest ∧
      m'.load + 20 ≤ m.load + body.length := by
  cases h with
  | nothing => exact .inl rfl
  | @script hash body rest script pool hpending hstack hhash hparse =>
    refine .inr ⟨body, rest, hstack, ?_⟩
    have hcompare : Entry.load m.pending = 20 := by
      rw [pendingHash?_eq_some_iff.1 hpending, Entry.load_p2sh]
    have hscript := Entry.load_script_le script
    have hweight := Script.weight_of_parseRawWith hparse
    simp only [load]
    omega

/-- The program for a key costs at most 19 more, and it has 20 bytes. The program for a script costs no
more than the witness that it takes. -/
theorem load_of_expanded (h : Expanded m m') :
    m'.load ≤ m.load ∨ ∃ bytes, m.frame.stack.elements = [bytes, []] ∧ bytes.length = 20 ∧
      m'.load ≤ m.load + 19 := by
  cases h with
  | nothing => exact .inl (Nat.le_refl _)
  | @key hash hstack =>
    refine .inr ⟨hash.bytes, elements_of_witnessProgram? hstack, hash.length_bytes, ?_⟩
    have hbehind := Entry.load_append_le m.pending
      (m.witness.map .witness ++ (Script.p2pkh hash).map .command)
    have hcheck := Entry.load_append_le (m.witness.map .witness) ((Script.p2pkh hash).map .command)
    rw [Entry.load_p2pkh] at hcheck
    simp only [load, List.map_nil, Entry.load]
    omega
  | @script hash elements body script pool hstack hwitness hhash hparse =>
    left
    have hbehind := Entry.load_append_le m.pending (elements.map .witness ++ script.map .command)
    have helements := Entry.load_append_le (elements.map .witness) (script.map .command)
    have hscript := Entry.load_script_le script
    have hweight := Script.weight_of_parseRawWith hparse
    have htaken : Entry.load (m.witness.map .witness) =
        Entry.load (elements.map .witness) + (body.length + 1) := by
      rw [hwitness, Entry.load_witness, Entry.load_witness]
      simp
    simp only [load, List.map_nil, Entry.load]
    omega

/-- A push adds no more to what the machine can still cost than the bytes that are pushed. -/
theorem load_pushData {env : Env} {scripted : Bool} {data : Bytes}
    (h : pushData env scripted data m = .ok () m') : m'.load ≤ m.load + data.length := by
  obtain ⟨-, ⟨-, rfl⟩ | ⟨-, m₁, hredeem, hexpand⟩⟩ := pushData_ok h
  · exact Nat.le_add_right _ _
  · have hpushed : (m.pushed data).load = m.load := rfl
    have hredeemed : m.pushed data = m₁ ∨ m₁.load + 20 ≤ m.load + data.length := by
      rcases hredeem with ⟨-, hredeem⟩ | ⟨-, hredeem⟩
      · refine (load_of_redeemed hredeem).imp_right ?_
        rintro ⟨body, rest, hstack, hload⟩
        simp only [pushed, Stack.elements_ofList, List.cons.injEq] at hstack
        rw [hstack.1]
        exact hload
      · exact .inl hredeem
    have hexpanded : m'.load ≤ m₁.load ∨ ∃ bytes, m₁.frame.stack.elements = [bytes, []] ∧
        bytes.length = 20 ∧ m'.load ≤ m₁.load + 19 := by
      rcases hexpand with ⟨-, hexpand⟩ | ⟨-, rfl⟩
      · exact load_of_expanded hexpand
      · exact .inl (Nat.le_refl _)
    -- The push pays for the program that it completes, and the comparison that is gone for any other.
    rcases hexpanded with hsame | ⟨bytes, hstack, hlength, hload⟩
    · rcases hredeemed with rfl | hredeemed
      · omega
      · omega
    · rcases hredeemed with rfl | hredeemed
      · simp only [pushed, Stack.elements_ofList, List.cons.injEq] at hstack
        rw [hstack.1]
        omega
      · omega

/-! ## How many steps there can be -/

/-- A bound on the steps that a machine can still make. -/
def bound (config : Config) (m : Machine) : Nat :=
  2 * (config.limits.maxOps - m.frame.opCount) + m.load

theorem bound_lt_of_pushData {scripted : Bool} {data : Bytes} (hp : m.pending = entry :: rest)
    (hcounted : entry.isCounted = false) (hweight : entry.weight = data.length + 1)
    {event : Event}
    (h : pushData config.toEnv scripted data (reported { m with pending := rest } event) = .ok () m') :
    m'.bound config < m.bound config := by
  have hops : m'.frame.opCount = m.frame.opCount := (grows_pushData h).opCount_eq
  have hload : m'.load ≤
      Entry.load rest + Entry.load (m.witness.map .witness) + data.length := load_pushData h
  have hbefore : m.load =
      data.length + 1 + Entry.load rest + Entry.load (m.witness.map .witness) := by
    simp [load, hp, Entry.load, hcounted, hweight]
  simp only [bound, hops]
  omega

theorem bound_lt_of_runOpcode {byte : UInt8} (hp : m.pending = .command (.opcode byte) :: rest)
    {event : Event}
    (h : runOpcode config byte (reported { m with pending := rest } event) = .ok () m') :
    m'.bound config < m.bound config := by
  obtain ⟨hpending, hwitness, hops, hcounted⟩ := runOpcode_spends h
  simp only [reported] at hpending hwitness hops hcounted
  have hbehind : m'.load = Entry.load rest + Entry.load (m.witness.map .witness) := by
    rw [load, hpending, hwitness]
  cases hc : Opcode.isCounted byte with
  | true =>
    have hbefore : m.load = Entry.load rest - 1 + Entry.load (m.witness.map .witness) := by
      simp [load, hp, Entry.load, Entry.isCounted, hc]
    have hspent := hcounted hc
    simp only [bound]
    omega
  | false =>
    have hbefore : m.load = 1 + Entry.load rest + Entry.load (m.witness.map .witness) := by
      simp [load, hp, Entry.load, Entry.isCounted, hc, Entry.weight, Command.weight]
    simp only [bound]
    omega

/-- Every step that succeeds lowers the bound. -/
theorem bound_lt_of_step (hp : m.pending = entry :: rest)
    (h : step config entry { m with pending := rest } = .ok () m') :
    m'.bound config < m.bound config := by
  obtain ⟨hrun, -⟩ := step_ok h
  match entry with
  | .command (.push data) => exact bound_lt_of_pushData hp rfl rfl hrun
  | .command (.opcode byte) => exact bound_lt_of_runOpcode hp hrun
  | .witness data => exact bound_lt_of_pushData hp rfl rfl hrun

/-- A run makes no more steps than its bound says, and then it stops. -/
theorem run_stops (config : Config) (m : Machine) :
    ∃ n ≤ m.bound config, ∃ last, after? config n m = some last ∧
      last.Stops config (m.run config) := by
  induction m using Machine.run.induct config with
  | case1 m hnil =>
    refine ⟨0, Nat.zero_le _, m, rfl, ?_⟩
    rw [run_of_nil hnil]
    exact .finished hnil
  | case2 m entry rest hp e next hstep =>
    refine ⟨0, Nat.zero_le _, m, rfl, ?_⟩
    rw [run_of_cons hp, hstep]
    exact .failed hp hstep
  | case3 m entry rest hp _ next hstep ih =>
    obtain ⟨n, hn, last, hafter, hstops⟩ := ih
    have hlower := bound_lt_of_step hp hstep
    refine ⟨n + 1, by omega, last, ?_, ?_⟩
    · rw [after?_succ hp hstep]
      exact hafter
    · rw [run_of_cons hp, hstep]
      exact hstops

end Machine

/-- What holds of every event of a spend that is accepted can be found out by making its steps. -/
theorem forall_events_of_after? {flags : Flags} {checker : Checker} {sighash : Digest 32}
    {scriptSig scriptPubKey : Script} {witness : List Bytes} {p : Event → Bool} (n : Nat)
    (h : verifyScript flags checker sighash scriptSig scriptPubKey witness = .ok ())
    (hsteps : (Machine.after? { flags, checker, sighash } n
      (.start {} (scriptSig ++ scriptPubKey) witness)).any fun m =>
        m.pending.isEmpty && (Event.succeeded :: m.events).all p) :
    ∀ event ∈ (verify { flags, checker, sighash } scriptSig scriptPubKey witness).events, p event := by
  obtain ⟨final, hrun, hevents⟩ := verifyScript_events h
  obtain ⟨m, hafter, hlast⟩ := (Option.any_eq_true _ _).1 hsteps
  obtain ⟨hnil, hall⟩ := Bool.and_eq_true_iff.1 hlast
  rw [Machine.run_of_after? hafter, Machine.run_of_nil (List.isEmpty_iff.1 hnil)] at hrun
  obtain ⟨rfl, -⟩ := Machine.finish_ok hrun
  intro event hevent
  rw [hevents, List.mem_reverse] at hevent
  exact List.all_eq_true.1 hall event hevent

/-- Every evaluation ends: whatever the script, the witness, the rules, the limits and the opcode table
are, it makes at most a fixed number of steps, which can be told from the operations that are allowed,
the script and the witness. -/
theorem evaluation_stops (config : Config) (script : Script) (witness : List Bytes)
    (pool : BufferPool) :
    ∃ n ≤ 2 * config.limits.maxOps + script.weight + (witness.map fun data => data.length + 1).sum,
      ∃ last,
        Machine.after? config n { Machine.start config.limits script witness with pool } = some last ∧
        last.Stops config
          (Machine.run config { Machine.start config.limits script witness with pool }) := by
  obtain ⟨n, hn, hstops⟩ :=
    Machine.run_stops config { Machine.start config.limits script witness with pool }
  refine ⟨n, ?_, hstops⟩
  have hscript := Entry.load_script_le script
  simp only [Machine.bound, Machine.load, Machine.start, Machine.initial, Frame.new,
    Entry.load_witness] at hn
  omega

end CoinScript
