import CoinScript.Proofs.Commands
import CoinScript.Proofs.Footprint
import CoinScript.Proofs.Steps

/-!
# What an evaluation uses

Whatever the limits are, no machine that an evaluation comes through exceeds them: neither the two
stacks, nor their elements, nor the operations, nor the program that is still to be run. The operations
are accounted for exactly: one for every counted opcode that has been run or skipped, and one for every
key that the check of several signatures took off the stack.
-/

namespace CoinScript

/-- The operations that running an entry uses up for keys. -/
def Entry.keyCount (config : Config) (m : Machine) : Entry → Nat
  | .command (.opcode byte) =>
    match config.table.handler? byte with
    | some handler =>
      if m.isExecuting && (Command.opcode byte).isStraight then handler.keyCount config.flags m.frame
      else 0
    | none => 0
  | _ => 0

namespace Machine

variable {α : Type} {config : Config} {limits : Limits} {count n : Nat} {m m' : Machine} {entry : Entry}
  {rest : List Entry} {Q : α → Prop}

/-! ## The program and the stacks -/

/-- The stacks are within bounds, so many operations have been used, and the program is not too long. -/
structure Bounded (limits : Limits) (count : Nat) (m : Machine) : Prop where
  frame : m.frame.Fits limits count
  pending_le : m.pending.length ≤ limits.maxCommands

theorem keeps_act {x : Action α} (hx : Action.KeepsFit limits count x Q) :
    Keeps (Bounded limits count) (act x) Q := by
  intro m a m' hm hrun
  obtain ⟨frame, hframe, rfl⟩ := act_eq_ok hrun
  obtain ⟨hfits, ha⟩ := hx m.frame a frame hm.frame hframe
  exact ⟨⟨hfits, hm.pending_le⟩, ha⟩

theorem keeps_report (event : Event) :
    Keeps (Bounded limits count) (report event) fun _ => True := by
  intro m _ m' hm hrun
  cases hrun
  exact ⟨⟨hm.frame, hm.pending_le⟩, trivial⟩

theorem keeps_runNext (entries : List Entry) :
    Keeps (Bounded limits count) (runNext limits entries) fun _ => True := by
  intro m _ m' hm hrun
  unfold runNext at hrun
  split at hrun
  · cases hrun
  · rename_i hroom
    cases hrun
    refine ⟨⟨hm.frame, ?_⟩, trivial⟩
    rw [List.length_append]
    omega

theorem keeps_runLast (entries : List Entry) :
    Keeps (Bounded limits count) (runLast limits entries) fun _ => True := by
  intro m _ m' hm hrun
  unfold runLast at hrun
  split at hrun
  · cases hrun
  · rename_i hroom
    cases hrun
    refine ⟨⟨hm.frame, ?_⟩, trivial⟩
    rw [List.length_append]
    omega

theorem keeps_parseInjected (body : Bytes) :
    Keeps (Bounded limits count) (parseInjected body) fun _ => True := by
  intro m script m' hm hrun
  obtain ⟨pool, -, rfl⟩ := parseInjected_ok hrun
  exact ⟨⟨hm.frame, hm.pending_le⟩, trivial⟩

theorem keeps_takeWitness : Keeps (Bounded limits count) takeWitness fun _ => True := by
  intro m _ m' hm hrun
  cases hrun
  exact ⟨⟨hm.frame, hm.pending_le⟩, trivial⟩

theorem keeps_onlyIf {condition : Bool} {x : Step Unit}
    (hx : Keeps (Bounded limits count) x fun _ => True) :
    Keeps (Bounded limits count) (onlyIf condition x) fun _ => True :=
  keeps_ite hx (keeps_pure trivial)

theorem keeps_redeemPending :
    Keeps (Bounded limits count) (redeemPending limits) fun _ => True := by
  refine keeps_bind keeps_get fun m _ => ?_
  split
  · refine keeps_bind (keeps_modify fun m hm => ⟨hm.frame, Nat.zero_le _⟩) fun _ _ => ?_
    refine keeps_bind (keeps_act Action.keeps_pop) fun body _ => ?_
    refine keeps_ite ?_ (keeps_throw _)
    refine keeps_bind (keeps_parseInjected body) fun script _ => ?_
    exact keeps_bind (keeps_report _) fun _ _ => keeps_runNext _
  · exact keeps_pure trivial

theorem keeps_expand (program : WitnessProgram) :
    Keeps (Bounded limits count) (expand limits program) fun _ => True := by
  cases program with
  | pubKeyHash hash =>
    refine keeps_bind keeps_takeWitness fun witness _ => ?_
    exact keeps_bind (keeps_report _) fun _ _ => keeps_runLast _
  | scriptHash hash =>
    refine keeps_bind keeps_takeWitness fun witness _ => ?_
    split
    · exact keeps_throw _
    · rename_i body _
      refine keeps_ite ?_ (keeps_throw _)
      refine keeps_bind (keeps_parseInjected body) fun script _ => ?_
      exact keeps_bind (keeps_report _) fun _ _ => keeps_runLast _

theorem keeps_expandWitness :
    Keeps (Bounded limits count) (expandWitness limits) fun _ => True := by
  refine keeps_bind keeps_get fun m _ => ?_
  split
  · rename_i program _
    refine keeps_bind (keeps_act Action.keeps_drop) fun _ _ => ?_
    exact keeps_bind (keeps_act Action.keeps_drop) fun _ _ => keeps_expand program
  · exact keeps_pure trivial

/-- A push uses up no operations, and neither it nor what it brings into the program is too large. -/
theorem keeps_pushData {env : Env} {scripted : Bool} {data : Bytes} :
    Keeps (Bounded env.limits count) (pushData env scripted data) fun _ => True := by
  unfold pushData
  split
  · exact keeps_throw _
  · rename_i hsize
    have hdata : data.length ≤ env.limits.largestElement :=
      Nat.le_trans (Nat.le_of_not_lt hsize) (Nat.le_max_left _ _)
    refine keeps_bind keeps_get fun m _ => ?_
    refine keeps_ite (keeps_pure trivial) (keeps_ite (keeps_throw _) ?_)
    refine keeps_bind (keeps_act (Action.keeps_push hdata)) fun _ _ => ?_
    refine keeps_bind (keeps_onlyIf keeps_redeemPending) fun _ _ => ?_
    exact keeps_onlyIf keeps_expandWitness

/-! ## Opcodes -/

theorem keeps_openBranch (expected : Bool) :
    Keeps (Bounded limits count) (openBranch expected) fun _ => True := by
  intro m _ m' hm hrun
  unfold openBranch at hrun
  split at hrun
  · split at hrun
    · cases hrun
    · rename_i top stack hpop
      cases hrun
      have hstack := (hm.frame.stack.pop hpop).1
      exact ⟨⟨⟨hstack, hm.frame.altStack, hm.frame.opCount_eq⟩, hm.pending_le⟩, trivial⟩
  · cases hrun
    exact ⟨⟨hm.frame, hm.pending_le⟩, trivial⟩

theorem keeps_flipBranch : Keeps (Bounded limits count) flipBranch fun _ => True := by
  intro m _ m' hm hrun
  unfold flipBranch at hrun
  split at hrun
  · cases hrun
  · cases hrun
    exact ⟨⟨hm.frame, hm.pending_le⟩, trivial⟩

theorem keeps_closeBranch : Keeps (Bounded limits count) closeBranch fun _ => True := by
  intro m _ m' hm hrun
  unfold closeBranch at hrun
  split at hrun
  · cases hrun
  · cases hrun
    exact ⟨⟨hm.frame, hm.pending_le⟩, trivial⟩

theorem keeps_flowControl {byte : UInt8} (hflow : (Command.opcode byte).isStraight = false) :
    Keeps (Bounded limits count) (dispatch config byte) fun _ => True := by
  unfold dispatch
  rcases Command.flowControl_of_isStraight hflow with hop | hop | hop | hop <;> rw [hop]
  · exact keeps_openBranch true
  · exact keeps_openBranch false
  · exact keeps_flipBranch
  · exact keeps_closeBranch

/-- An opcode uses up no operations but for keys. -/
theorem bounded_of_dispatch (hword : config.limits.maxStackSize < 2 ^ 64) {byte : UInt8}
    (hm : m.Bounded config.limits count) (hcount : count ≤ config.limits.maxOps)
    (h : dispatch config byte m = .ok () m') :
    m'.Bounded config.limits (count + (Entry.command (.opcode byte)).keyCount config m) ∧
      count + (Entry.command (.opcode byte)).keyCount config m ≤ config.limits.maxOps := by
  cases hstraight : (Command.opcode byte).isStraight with
  | false =>
    have hnone : (Entry.command (.opcode byte)).keyCount config m = 0 := by
      simp only [Entry.keyCount, hstraight, Bool.and_false]
      split <;> rfl
    rw [hnone]
    exact ⟨(keeps_flowControl hstraight m () m' hm h).1, hcount⟩
  | true =>
    rw [dispatch_of_isStraight hstraight] at h
    obtain ⟨hsame, ⟨hskipped, hframe⟩ | ⟨hexec, handler, hhandler, hrun⟩⟩ := execute_ok h
    · have hnone : (Entry.command (.opcode byte)).keyCount config m = 0 := by
        simp only [Entry.keyCount, hskipped, Bool.false_and]
        split <;> rfl
      rw [hnone, hsame, hframe]
      exact ⟨⟨hm.frame, hm.pending_le⟩, hcount⟩
    · have hkeys : (Entry.command (.opcode byte)).keyCount config m =
          handler.keyCount config.flags m.frame := by
        simp [Entry.keyCount, hhandler, hexec, hstraight]
      rw [hkeys]
      obtain ⟨hfits, hops⟩ := Handler.fits_of_run hword hm.frame hcount hrun
      rw [hsame]
      exact ⟨⟨hfits, hm.pending_le⟩, hops⟩

/-! ## Steps and runs -/

/-- The machine exceeds no limit. -/
structure InLimits (limits : Limits) (m : Machine) : Prop where
  bounded : m.Bounded limits m.frame.opCount
  size_le : m.frame.size ≤ limits.maxStackSize
  opCount_le : m.frame.opCount ≤ limits.maxOps

theorem inLimits_start {script : Script} {witness : List Bytes} {pool : BufferPool}
    (h : script.length ≤ limits.maxCommands) :
    InLimits limits { start limits script witness with pool } where
  bounded := ⟨⟨Stack.within_new, Stack.within_new, rfl⟩, by simpa [start] using h⟩
  size_le := Nat.zero_le _
  opCount_le := Nat.zero_le _

/-- What running an entry leaves, with the operations that it used up. -/
theorem bounded_of_runEntry (hword : config.limits.maxStackSize < 2 ^ 64)
    (hm : m.Bounded config.limits count) (hcount : count ≤ config.limits.maxOps)
    (h : runEntry config entry m = .ok () m') :
    let used := count + entry.isCounted.toNat + entry.keyCount config m
    m'.Bounded config.limits used ∧ used ≤ config.limits.maxOps := by
  match entry with
  | .command (.push data) => exact ⟨(keeps_pushData m () m' hm h).1, hcount⟩
  | .witness data => exact ⟨(keeps_pushData m () m' hm h).1, hcount⟩
  | .command (.opcode byte) =>
    obtain ⟨-, charged, hcharged, hdispatch⟩ := runOpcode_ok h
    have hused : charged = count + (Entry.command (.opcode byte)).isCounted.toNat ∧
        charged ≤ config.limits.maxOps := by
      rw [hm.frame.opCount_eq] at hcharged
      rcases hcharged with ⟨hcounted, hops, rfl⟩ | ⟨hcounted, rfl⟩
      · exact ⟨by simp [Entry.isCounted, hcounted], hops⟩
      · exact ⟨by simp [Entry.isCounted, hcounted], hcount⟩
    obtain ⟨rfl, hops⟩ := hused
    have hbefore : Bounded config.limits (count + (Entry.command (.opcode byte)).isCounted.toNat)
        { m with frame := { m.frame with
          opCount := count + (Entry.command (.opcode byte)).isCounted.toNat } } :=
      ⟨⟨hm.frame.stack, hm.frame.altStack, rfl⟩, hm.pending_le⟩
    have hafter := bounded_of_dispatch hword hbefore hops hdispatch
    exact hafter

theorem inLimits_of_step (hword : config.limits.maxStackSize < 2 ^ 64)
    (hm : m.InLimits config.limits) (hp : m.pending = entry :: rest)
    (h : step config entry { m with pending := rest } = .ok () m') :
    m'.InLimits config.limits ∧
      m'.frame.opCount = m.frame.opCount + entry.isCounted.toNat + entry.keyCount config m := by
  obtain ⟨hrun, hsize⟩ := step_ok h
  -- Reporting the entry takes it from the program but touches neither the stacks nor the count.
  have hpending := hm.bounded.pending_le
  rw [hp, List.length_cons] at hpending
  have hbefore : Bounded config.limits m.frame.opCount
      (reported { m with pending := rest } (entryEvent m.frame.stack.length entry)) :=
    ⟨hm.bounded.frame, Nat.le_of_succ_le hpending⟩
  obtain ⟨hbounded, hops⟩ := bounded_of_runEntry hword hbefore hm.opCount_le hrun
  have hkeys : entry.keyCount config
      (reported { m with pending := rest } (entryEvent m.frame.stack.length entry)) =
        entry.keyCount config m := by
    cases entry <;> rfl
  have hused := hbounded.frame.opCount_eq
  rw [hkeys] at hused
  refine ⟨⟨?_, hsize, ?_⟩, hused⟩
  · rw [hbounded.frame.opCount_eq]
    exact hbounded
  · rw [hbounded.frame.opCount_eq]
    exact hops

/-- The entries that the first steps run, each with the machine that it is run on. -/
def ran (config : Config) : Nat → Machine → List (Entry × Machine)
  | 0, _ => []
  | n + 1, m =>
    match m.pending with
    | [] => []
    | entry :: rest =>
      match step config entry { m with pending := rest } with
      | .ok _ next => (entry, m) :: ran config n next
      | .error _ _ => [(entry, m)]

theorem ran_succ (hp : m.pending = entry :: rest)
    (hstep : step config entry { m with pending := rest } = .ok () m') :
    ran config (n + 1) m = (entry, m) :: ran config n m' := by
  simp only [ran, hp, hstep]

/-- The operations that a number of steps use up: one for every counted opcode, and those for keys. -/
def opsUsed (config : Config) (steps : List (Entry × Machine)) : Nat :=
  steps.countP (fun (entry, _) => entry.isCounted) +
    (steps.map fun (entry, m) => entry.keyCount config m).sum

theorem opsUsed_cons (config : Config) (entry : Entry) (m : Machine) (steps : List (Entry × Machine)) :
    opsUsed config ((entry, m) :: steps) =
      entry.isCounted.toNat + entry.keyCount config m + opsUsed config steps := by
  simp only [opsUsed, List.countP_cons, List.map_cons, List.sum_cons]
  cases entry.isCounted <;> simp <;> omega

/-- Whatever number of steps is made, no limit is exceeded and the operations add up. -/
theorem inLimits_after (hword : config.limits.maxStackSize < 2 ^ 64) (hm : m.InLimits config.limits)
    (h : after? config n m = some m') :
    m'.InLimits config.limits ∧
      m'.frame.opCount = m.frame.opCount + opsUsed config (ran config n m) := by
  induction n generalizing m with
  | zero =>
    cases h
    exact ⟨hm, rfl⟩
  | succ n ih =>
    obtain ⟨entry, rest, next, hp, hstep, h⟩ := after?_succ_eq_some h
    obtain ⟨hnext, hfirst⟩ := inLimits_of_step hword hm hp hstep
    obtain ⟨hlast, hothers⟩ := ih hnext h
    refine ⟨hlast, ?_⟩
    rw [ran_succ hp hstep, opsUsed_cons]
    omega

end Machine

/-- Wherever a step of an evaluation begins or ends, the two stacks together have no more elements than
allowed, no element is larger than a push may be or than 32 bytes, and neither the operations nor the
program that is still to be run exceed their limits. The operations used are those of the counted
opcodes that were run or skipped and of the keys that were checked. Any limits will do, as long as the
number of elements is a machine word. -/
theorem evaluation_within_limits {config : Config} {script : Script} {witness : List Bytes}
    {pool : BufferPool} {n : Nat} {m : Machine} (hword : config.limits.maxStackSize < 2 ^ 64)
    (h : Machine.reached? config script witness pool n = some m) :
    m.frame.stack.length + m.frame.altStack.length ≤ config.limits.maxStackSize ∧
      (∀ data ∈ m.frame.stack.elements ++ m.frame.altStack.elements,
        data.length ≤ max config.limits.maxElementSize 32) ∧
      m.frame.opCount ≤ config.limits.maxOps ∧
      m.pending.length ≤ config.limits.maxCommands ∧
      m.frame.opCount = Machine.opsUsed config
        (Machine.ran config n { Machine.start config.limits script witness with pool }) := by
  obtain ⟨hsize, hafter⟩ := Machine.reached?_eq_some h
  obtain ⟨hm, hops⟩ := Machine.inLimits_after hword (Machine.inLimits_start hsize) hafter
  refine ⟨hm.size_le, ?_, hm.opCount_le, hm.bounded.pending_le, ?_⟩
  · intro data hdata
    rcases List.mem_append.1 hdata with hmain | halt
    · exact hm.bounded.frame.stack.size_le data hmain
    · exact hm.bounded.frame.altStack.size_le data halt
  · rw [hops]
    exact Nat.zero_add _

/-- A check of no signatures against two keys uses up three operations. -/
theorem evaluation_within_limits_two_keys :
    ∃ m, Machine.reached? { sighash := sha256 [] }
        [.ofOpcode .op0, .ofOpcode .op0, .push [0x02], .push [0x03], .ofOpcode .op2,
          .ofOpcode .opCheckMultiSig] [] .empty 6 = some m ∧
      m.frame.opCount = 3 ∧
      m.frame.opCount = Machine.opsUsed { sighash := sha256 [] }
        (Machine.ran { sighash := sha256 [] } 6 (.start {}
          [.ofOpcode .op0, .ofOpcode .op0, .push [0x02], .push [0x03], .ofOpcode .op2,
            .ofOpcode .opCheckMultiSig] [])) := by
  have hreached : (Machine.reached? { sighash := sha256 [] }
      [.ofOpcode .op0, .ofOpcode .op0, .push [0x02], .push [0x03], .ofOpcode .op2,
        .ofOpcode .opCheckMultiSig] [] .empty 6).any (·.frame.opCount = 3) := by decide +kernel
  obtain ⟨m, hm, hthree⟩ := (Option.any_eq_true _ _).1 hreached
  obtain ⟨-, -, -, -, hops⟩ := evaluation_within_limits (by decide) hm
  exact ⟨m, hm, of_decide_eq_true hthree, hops⟩

end CoinScript
