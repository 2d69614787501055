import CoinScript.Proofs.Questions
import CoinScript.Proofs.Redemption
import CoinScript.Proofs.Resources
import CoinScript.Proofs.WitnessScript

/-!
# Spends without redemption

Without the rule on scripts given by their hash, the comparison with the hash is run like anything else.
It succeeds on a script that would be redeemed, if there is room for it: it uses up two operations and
puts two more elements on the stack, and it is the end, so no conditional may be open. The rule demands
none of this. So a spend that is accepted with the rule is accepted without it if and only if there is
room for the comparison where the first script is redeemed.
-/

namespace CoinScript

/-- The same with the rule on scripts given by their hash switched on or off. -/
def Env.withP2sh (env : Env) (p2sh : Bool) : Env := { env with flags := { env.flags with p2sh } }

/-- No handler looks at the rule. -/
theorem Handler.run_withP2sh (env : Env) (p2sh : Bool) (byte : UInt8) (handler : Handler) :
    handler.run (env.withP2sh p2sh) byte = handler.run env byte := by
  cases handler with
  | checkMultiSig =>
    have hmatch : Action.matchKeys (env.withP2sh p2sh) = Action.matchKeys env :=
      Action.matchKeys_congr rfl
    simp only [Handler.run, Action.checkMultiSig, hmatch]
    rfl
  | _ => rfl

namespace Action

variable {frame : Frame}

theorem hash160_of_cons {top : Bytes} {rest : List Bytes} (h : frame.stack.elements = top :: rest)
    (hroom : rest.length < frame.stack.capacity) :
    hash Opcode.opHash160.byte frame = .ok () (frame.stacked ((hash160 top).bytes :: rest)) := by
  simp only [hash, bind, EStateM.bind, pop_of_cons h, Opcode.ofByte?_byte, Option.bind, hashResult?,
    push_stacked hroom]

theorem opEqual_of_cons {x : Bytes} {rest : List Bytes} (h : frame.stack.elements = x :: x :: rest)
    (hroom : rest.length < frame.stack.capacity) :
    equal Opcode.opEqual.byte frame = .ok () (frame.stacked (Element.ofBool true :: rest)) := by
  have hrequire : require 2 frame = .ok () frame := by
    simp [require, look, frame.stack.length_eq, h]
  have hpop : pop (frame.stacked (x :: rest)) = .ok x (frame.stacked rest) := by
    rw [pop_of_cons (Frame.elements_stacked _ _), Frame.stacked_stacked]
  have hbyte : Opcode.opEqual.byte ≠ Opcode.opEqualVerify.byte := by decide
  simp only [equal, bind, EStateM.bind, hrequire, pop_of_cons h, hpop, concludeCheck, hbyte, if_false,
    pushBool, decide_true, push_stacked hroom]

end Action

/-- Whether an event tells that a script has been redeemed. -/
def Event.isRedemption : Event → Bool
  | .redeemed _ _ => true
  | _ => false

namespace Machine

variable {env : Env} {config : Config} {m m' : Machine} {command : Command} {rest : List Entry}

/-! ## Steps that redeem nothing -/

theorem runOpcode_withP2sh (p2sh : Bool) (byte : UInt8) :
    runOpcode { toEnv := env.withP2sh p2sh } byte = runOpcode { toEnv := env } byte := by
  have hexecute : execute { toEnv := env.withP2sh p2sh } byte = execute { toEnv := env } byte := by
    unfold execute
    simp only [Handler.executable_run, Handler.run_withP2sh]
  simp only [runOpcode, dispatch, hexecute]
  rfl

/-- The rule does not apply where no comparison is pending. -/
theorem redeemPending_withP2sh {limits : Limits} {x : Step Unit} {data : Bytes}
    (h : m.pendingHash? = none) (p2sh : Bool) :
    (do act (Action.push data); onlyIf p2sh (redeemPending limits); x) m =
      (do act (Action.push data); x) m := by
  cases hpush : act (Action.push data) m with
  | error e m₁ => simp only [bind, EStateM.bind, hpush]
  | ok _ m₁ =>
    have hpushed : m₁ = m.pushed data := act_push_eq_ok hpush
    have hnone : m₁.pendingHash? = none := hpushed ▸ h
    rw [bind_of_ok hpush, bind_of_ok hpush, bind_of_ok (redeemPending_of_none fun _ => hnone)]

theorem pushData_withP2sh {scripted : Bool} {data : Bytes}
    (h : m.isExecuting → m.pendingHash? = none) :
    pushData (env.withP2sh true) scripted data m = pushData (env.withP2sh false) scripted data m := by
  have hpush (p2sh : Bool) : pushData (env.withP2sh p2sh) scripted data m =
      if env.limits.maxElementSize < data.length then .error .pushSize m
      else if !m.isExecuting then .ok () m
      else (if scripted && env.flags.minimalData && !Element.needsPush data then throw .minimalData
        else do
          act (Action.push data)
          onlyIf p2sh (redeemPending env.limits)
          onlyIf env.flags.witness (expandWitness env.limits) : Step Unit) m :=
    pushData_eq (env.withP2sh p2sh) scripted data m
  rw [hpush, hpush]
  cases hexec : m.isExecuting with
  | false => rfl
  | true =>
    by_cases hminimal : (scripted && env.flags.minimalData && !Element.needsPush data) = true
    · rw [if_pos hminimal, if_pos hminimal]
    · rw [if_neg hminimal, if_neg hminimal, redeemPending_withP2sh (h hexec),
        redeemPending_withP2sh (h hexec)]

/-- A step is the same with and without the rule, unless it is a push that is executed in front of the
comparison with a hash. -/
theorem step_withP2sh (h : ∀ data, command = .push data → m.isExecuting → m.pendingHash? = none) :
    step { toEnv := env.withP2sh true } (.command command) m =
      step { toEnv := env.withP2sh false } (.command command) m := by
  have hrun : runEntry { toEnv := env.withP2sh true } (.command command)
      (m.reported (entryEvent m.frame.stack.length (.command command))) =
        runEntry { toEnv := env.withP2sh false } (.command command)
          (m.reported (entryEvent m.frame.stack.length (.command command))) := by
    cases command with
    | push data => exact pushData_withP2sh (h data rfl)
    | opcode byte => simp only [runEntry, runOpcode_withP2sh]
  have hannounce : announce (.command command) m =
      .ok () (m.reported (entryEvent m.frame.stack.length (.command command))) := rfl
  simp only [step, bind, EStateM.bind, hannounce, hrun]
  rfl

/-! ## The comparison without the rule -/

theorem verdict_cons_iff {entry : Entry} (hp : m.pending = entry :: rest) :
    m.verdict config = .ok () ↔ ∃ next, step config entry { m with pending := rest } = .ok () next ∧
      next.verdict config = .ok () := by
  constructor
  · intro h
    obtain ⟨m', hrun⟩ := verdict_eq_ok_iff.1 h
    obtain ⟨next, hstep, hrun⟩ := run_cons_ok hp hrun
    exact ⟨next, hstep, verdict_eq_ok_iff.2 ⟨m', hrun⟩⟩
  · rintro ⟨next, hstep, h⟩
    rw [verdict_of_step_ok hp hstep]
    exact h

theorem verdict_nil_iff (hp : m.pending = []) :
    m.verdict config = .ok () ↔ m.branches.isEmpty = true ∧
      ∃ top below, m.frame.stack.elements = top :: below ∧ Element.isSuccess top = true := by
  rw [verdict_eq_ok_iff, run_of_nil hp]
  constructor
  · rintro ⟨m', h⟩
    exact (finish_ok h).2
  · rintro ⟨hclosed, top, below, hstack, hsuccess⟩
    exact ⟨m, (finish_of_cons hclosed hstack).trans (if_pos hsuccess)⟩

/-- What follows an entry does not depend on what has been reported. -/
theorem verdict_entry_iff {entry : Entry} {frame : Frame} {p : Prop} (hp : m.pending = entry :: rest)
    (hrun : ∀ m', runEntry config entry
        (reported { m with pending := rest } (entryEvent m.frame.stack.length entry)) = .ok () m' ↔
      p ∧ m' = reported { m with pending := rest, frame } (entryEvent m.frame.stack.length entry)) :
    m.verdict config = .ok () ↔ p ∧ frame.size ≤ config.limits.maxStackSize ∧
      ({ m with pending := rest, frame } : Machine).verdict config = .ok () := by
  let next := reported { m with pending := rest, frame } (entryEvent m.frame.stack.length entry)
  have hnext : next.verdict config =
      ({ m with pending := rest, frame } : Machine).verdict config :=
    verdict_eq_of_alike ⟨.refl _, Entry.alike_of_eq rfl, rfl, rfl⟩
  rw [verdict_cons_iff hp, ← hnext]
  constructor
  · rintro ⟨m', hstep, hverdict⟩
    obtain ⟨hentry, hsize⟩ := step_ok hstep
    obtain ⟨hcondition, rfl⟩ := (hrun m').1 hentry
    exact ⟨hcondition, hsize, hverdict⟩
  · rintro ⟨hcondition, hsize, hverdict⟩
    exact ⟨next, step_of_ok ((hrun next).2 ⟨hcondition, rfl⟩) hsize, hverdict⟩

theorem size_pushed (m : Machine) (data : Bytes) : (m.pushed data).frame.size = m.frame.size + 1 := by
  simp only [pushed, Frame.size, Stack.length_ofList, List.length_cons, m.frame.stack.length_eq]
  omega

/-- Without rules that change the program, a push that is allowed does no more than push. -/
theorem pushData_ok_iff {data : Bytes} (hp2sh : env.flags.p2sh = false)
    (hwitness : env.flags.witness = false) (hexec : m.isExecuting)
    (hsize : data.length ≤ env.limits.maxElementSize)
    (hminimal : (env.flags.minimalData && !Element.needsPush data) = false) :
    pushData env true data m = .ok () m' ↔
      m.frame.stack.length < m.frame.stack.capacity ∧ m' = m.pushed data := by
  have hplain : pushData env true data m = act (Action.push data) m := by
    rw [pushData_eq, if_neg (Nat.not_lt.2 hsize), hexec, if_neg (by simp), Bool.true_and, hminimal,
      if_neg Bool.false_ne_true, hp2sh, hwitness]
    cases hpush : act (Action.push data) m <;> simp [bind, EStateM.bind, hpush, onlyIf, pure, EStateM.pure]
  rw [hplain]
  by_cases hroom : m.frame.stack.length < m.frame.stack.capacity
  · rw [act_push_of_room hroom]
    simp [hroom, eq_comm]
  · simp [act, Action.push, Action.alter, Action.take, Stack.push_eq, hroom, Except.map]

/-- A push that is allowed needs a place for one more element. -/
theorem verdict_push_iff {data : Bytes} (hp2sh : env.flags.p2sh = false)
    (hwitness : env.flags.witness = false) (hp : m.pending = .command (.push data) :: rest)
    (hexec : m.isExecuting) (hsize : data.length ≤ env.limits.maxElementSize)
    (hminimal : (env.flags.minimalData && !Element.needsPush data) = false)
    (hcapacity : m.frame.stack.capacity = env.limits.maxStackSize) :
    m.verdict { toEnv := env } = .ok () ↔ m.frame.size + 1 ≤ env.limits.maxStackSize ∧
      ({ m with
        pending := rest
        frame := (m.pushed data).frame } : Machine).verdict { toEnv := env } = .ok () := by
  have hiff : m.verdict { toEnv := env } = .ok () ↔
      m.frame.stack.length < m.frame.stack.capacity ∧
        (m.pushed data).frame.size ≤ env.limits.maxStackSize ∧
        ({ m with
          pending := rest
          frame := (m.pushed data).frame } : Machine).verdict { toEnv := env } = .ok () :=
    verdict_entry_iff hp fun m' => pushData_ok_iff hp2sh hwitness hexec hsize hminimal
  have hroom : m.frame.size + 1 ≤ env.limits.maxStackSize →
      m.frame.stack.length < m.frame.stack.capacity := by
    intro h
    rw [hcapacity]
    exact Nat.lt_of_lt_of_le (Nat.lt_succ_of_le (Nat.le_add_right _ _)) h
  rw [hiff, size_pushed]
  exact ⟨fun h => h.2, fun h => ⟨hroom h.1, h⟩⟩

/-- A counted opcode needs an operation that is not used up, and its handler has to succeed. -/
theorem runOpcode_ok_iff {byte : UInt8} {handler : Handler} {frame : Frame} (hexec : m.isExecuting)
    (hallowed : forbidden? byte = none) (hcounted : Opcode.isCounted byte)
    (hstraight : (Command.opcode byte).isStraight)
    (hhandler : OpcodeTable.standard.handler? byte = some handler)
    (hrun : handler.run env byte { m.frame with opCount := m.frame.opCount + 1 } = .ok () frame) :
    runOpcode { toEnv := env } byte m = .ok () m' ↔
      m.frame.opCount < env.limits.maxOps ∧ m' = { m with frame } := by
  let charged : Machine := { m with frame := { m.frame with opCount := m.frame.opCount + 1 } }
  have hexecute : execute { toEnv := env } byte charged = .ok () { m with frame } := by
    have hcharged : charged.isExecuting = true := hexec
    simp only [execute_eq, hcharged, if_true, hhandler, act, Handler.executable_run, hrun, charged]
  simp only [runOpcode, hallowed, hcounted, onlyIf, if_true, dispatch_of_isStraight hstraight]
  by_cases hops : m.frame.opCount < env.limits.maxOps
  · have hcharge : act (Action.charge env.limits 1) m = .ok () charged := by
      have hmax : ¬env.limits.maxOps < m.frame.opCount + 1 := by omega
      simp [act, Action.charge, hmax, charged]
    rw [bind_of_ok hcharge, hexecute]
    simp [hops, eq_comm]
  · have hmax : env.limits.maxOps < m.frame.opCount + 1 := by omega
    simp [bind, EStateM.bind, act, Action.charge, hmax, hops]

theorem verdict_opcode_iff {byte : UInt8} {handler : Handler} {frame : Frame}
    (hp : m.pending = .command (.opcode byte) :: rest) (hexec : m.isExecuting)
    (hallowed : forbidden? byte = none) (hcounted : Opcode.isCounted byte)
    (hstraight : (Command.opcode byte).isStraight)
    (hhandler : OpcodeTable.standard.handler? byte = some handler)
    (hrun : handler.run env byte { m.frame with opCount := m.frame.opCount + 1 } = .ok () frame) :
    m.verdict { toEnv := env } = .ok () ↔ m.frame.opCount < env.limits.maxOps ∧
      frame.size ≤ env.limits.maxStackSize ∧
      ({ m with pending := rest, frame } : Machine).verdict { toEnv := env } = .ok () :=
  verdict_entry_iff hp fun _ => runOpcode_ok_iff hexec hallowed hcounted hstraight hhandler hrun

/-- The comparison can be run where data is about to be pushed in front of it. -/
structure CanCompare (limits : Limits) (m : Machine) : Prop where
  closed : m.branches.isEmpty = true
  ops_le : m.frame.opCount + 2 ≤ limits.maxOps
  size_le : m.frame.size + 2 ≤ limits.maxStackSize

section Comparison

variable {body : Bytes} {below : List Bytes}
variable (hp2sh : env.flags.p2sh = false) (hwitness : env.flags.witness = false)
  (hhash : 20 ≤ env.limits.maxElementSize)
include hp2sh hwitness hhash

/-- The comparison of an element with its own hash needs two operations and a place on the stack, and
it is the end. -/
theorem verdict_p2sh_iff (hp : m.pending = (Script.p2sh (hash160 body)).map .command)
    (hexec : m.isExecuting) (hstack : m.frame.stack.elements = body :: below)
    (hcapacity : m.frame.stack.capacity = env.limits.maxStackSize)
    (hroom : below.length < m.frame.stack.capacity) :
    m.verdict { toEnv := env } = .ok () ↔ m.branches.isEmpty = true ∧
      m.frame.opCount + 2 ≤ env.limits.maxOps ∧ m.frame.size + 1 ≤ env.limits.maxStackSize := by
  let digest := (hash160 body).bytes
  have hlength : digest.length = 20 := (hash160 body).length_bytes
  have hminimal : (env.flags.minimalData && !Element.needsPush digest) = false := by
    rw [Element.needsPush_of_length (by omega), Bool.not_true, Bool.and_false]
  -- the element is replaced by its hash, the hash is pushed and then compared with itself
  let m₁ : Machine := { m with
    pending := [.command (.push digest), .command (.ofOpcode .opEqual)]
    frame := { m.frame with opCount := m.frame.opCount + 1 }.stacked (digest :: below) }
  let m₂ : Machine := { m₁ with
    pending := [.command (.ofOpcode .opEqual)]
    frame := (m₁.pushed digest).frame }
  let m₃ : Machine := { m₂ with
    pending := []
    frame := { m₂.frame with opCount := m₂.frame.opCount + 1 }.stacked
      (Element.ofBool true :: below) }
  have hhashed : m.verdict { toEnv := env } = .ok () ↔ m.frame.opCount < env.limits.maxOps ∧
      m₁.frame.size ≤ env.limits.maxStackSize ∧ m₁.verdict { toEnv := env } = .ok () :=
    verdict_opcode_iff hp hexec rfl rfl rfl rfl (Action.hash160_of_cons hstack hroom)
  have hpushed : m₁.verdict { toEnv := env } = .ok () ↔
      m₁.frame.size + 1 ≤ env.limits.maxStackSize ∧ m₂.verdict { toEnv := env } = .ok () :=
    verdict_push_iff hp2sh hwitness rfl hexec (by omega) hminimal hcapacity
  have hcompared : m₂.verdict { toEnv := env } = .ok () ↔ m₂.frame.opCount < env.limits.maxOps ∧
      m₃.frame.size ≤ env.limits.maxStackSize ∧ m₃.verdict { toEnv := env } = .ok () :=
    verdict_opcode_iff rfl hexec rfl rfl rfl rfl
      (Action.opEqual_of_cons (x := digest) (by simp [m₂, m₁, pushed]) hroom)
  have hended : m₃.verdict { toEnv := env } = .ok () ↔ m.branches.isEmpty = true := by
    rw [verdict_nil_iff rfl]
    exact ⟨fun h => h.1, fun h => ⟨h, _, below, Frame.elements_stacked _ _, rfl⟩⟩
  have hsize : m.frame.size = below.length + 1 + m.frame.altStack.length := by
    rw [Frame.size, m.frame.stack.length_eq, hstack, List.length_cons]
  have hsize₁ : m₁.frame.size = below.length + 1 + m.frame.altStack.length := Frame.size_stacked _ _
  have hsize₃ : m₃.frame.size = below.length + 1 + m.frame.altStack.length := Frame.size_stacked _ _
  have hops : m₂.frame.opCount = m.frame.opCount + 1 := rfl
  rw [hhashed, hpushed, hcompared, hended, hsize, hsize₁, hsize₃, hops]
  constructor
  · rintro ⟨-, -, hplace, hleft, -, hclosed⟩
    exact ⟨hclosed, hleft, hplace⟩
  · rintro ⟨hclosed, hleft, hplace⟩
    exact ⟨Nat.lt_of_succ_lt hleft, Nat.le_of_succ_le hplace, hplace, hleft, Nat.le_of_succ_le hplace,
      hclosed⟩

/-- The push of data in front of the comparison with its hash, and the comparison. -/
theorem verdict_comparison_iff
    (hp : m.pending = (.push body :: Script.p2sh (hash160 body)).map .command)
    (hexec : m.isExecuting) (hsize : body.length ≤ env.limits.maxElementSize)
    (hminimal : (env.flags.minimalData && !Element.needsPush body) = false)
    (hcapacity : m.frame.stack.capacity = env.limits.maxStackSize) :
    m.verdict { toEnv := env } = .ok () ↔ m.CanCompare env.limits := by
  let next : Machine := { m with
    pending := (Script.p2sh (hash160 body)).map .command
    frame := (m.pushed body).frame }
  have hpushed : m.verdict { toEnv := env } = .ok () ↔
      m.frame.size + 1 ≤ env.limits.maxStackSize ∧ next.verdict { toEnv := env } = .ok () :=
    verdict_push_iff hp2sh hwitness hp hexec hsize hminimal hcapacity
  have hnext : next.frame.size = m.frame.size + 1 := size_pushed m body
  have hcompared (hplace : m.frame.size + 1 ≤ env.limits.maxStackSize) :
      next.verdict { toEnv := env } = .ok () ↔ m.branches.isEmpty = true ∧
        m.frame.opCount + 2 ≤ env.limits.maxOps ∧ next.frame.size + 1 ≤ env.limits.maxStackSize := by
    refine verdict_p2sh_iff hp2sh hwitness hhash rfl hexec (Stack.elements_ofList _ _) hcapacity ?_
    rw [← m.frame.stack.length_eq]
    exact Nat.lt_of_lt_of_le (Nat.lt_succ_of_le (Nat.le_add_right _ _)) (hcapacity ▸ hplace)
  rw [hpushed]
  constructor
  · rintro ⟨hplace, hverdict⟩
    obtain ⟨hclosed, hops, hsize⟩ := (hcompared hplace).1 hverdict
    rw [hnext] at hsize
    exact ⟨hclosed, hops, hsize⟩
  · rintro ⟨hclosed, hops, hsize⟩
    have hplace := Nat.le_of_succ_le hsize
    exact ⟨hplace, (hcompared hplace).2 ⟨hclosed, hops, hnext ▸ hsize⟩⟩

end Comparison

/-! ## The first redemption -/

/-- The first script is about to be redeemed: data is pushed in front of the comparison with a hash, and
no script has been redeemed before. -/
structure RedeemsFirst (m : Machine) : Prop where
  unredeemed : m.events.any Event.isRedemption = false
  executing : m.isExecuting
  pending_eq : ∃ body hash, m.pending = (.push body :: Script.p2sh hash).map .command

/-- Without rules that change the program, a step takes its entry from the program and reports it. -/
theorem kept_of_step (hwitness : env.flags.witness = false)
    (h : step { toEnv := env.withP2sh false } (.command command) m = .ok () m') :
    m'.pending = m.pending ∧ m'.events.any Event.isRedemption = m.events.any Event.isRedemption := by
  obtain ⟨hrun, -⟩ := step_ok h
  cases command with
  | push data =>
    obtain ⟨-, ⟨-, rfl⟩ | ⟨hexec, -⟩⟩ := pushData_ok hrun
    · exact ⟨rfl, rfl⟩
    · rcases expanded_of_pushData hrun hexec nofun with ⟨hset, -⟩ | ⟨-, rfl⟩
      · rw [show env.flags.witness = true from hset] at hwitness
        cases hwitness
      · exact ⟨rfl, rfl⟩
  | opcode byte =>
    obtain ⟨-, count, -, hdispatch⟩ := runOpcode_ok hrun
    rw [(dispatch_ok hdispatch).1]
    exact ⟨rfl, rfl⟩

/-- A push that succeeds is allowed. -/
theorem allowed_of_pushData {data : Bytes} (hexec : m.isExecuting)
    (h : pushData env true data m = .ok () m') :
    data.length ≤ env.limits.maxElementSize ∧
      (env.flags.minimalData && !Element.needsPush data) = false := by
  rw [pushData_eq, hexec, if_neg (by simp : ¬(!true) = true), Bool.true_and] at h
  split at h
  · cases h
  · rename_i hsize
    split at h
    · cases h
    · rename_i hminimal
      exact ⟨Nat.le_of_not_lt hsize, Bool.eq_false_iff.2 hminimal⟩

/-- What holds of all machines that are reached holds of the first one and after the first step. -/
theorem forall_after?_iff {P : Machine → Prop} {entry : Entry} (hp : m.pending = entry :: rest)
    (hstep : step config entry { m with pending := rest } = .ok () m') :
    (∀ n next, after? config n m = some next → P next) ↔
      P m ∧ ∀ n next, after? config n m' = some next → P next := by
  constructor
  · intro h
    refine ⟨h 0 m rfl, fun n next hafter => h (n + 1) next ?_⟩
    rw [after?_succ hp hstep]
    exact hafter
  · rintro ⟨hm, h⟩ n next hafter
    cases n with
    | zero =>
      cases hafter
      exact hm
    | succ n =>
      rw [after?_succ hp hstep] at hafter
      exact h n next hafter

/-- A script that is about to be redeemed is redeemed in the next step with the rule. Without the rule,
what matters is whether there is room for the comparison. -/
theorem verdict_of_redeemsFirst (hwitness : env.flags.witness = false)
    (hhash : 20 ≤ env.limits.maxElementSize)
    (hcapacity : m.frame.stack.capacity = env.limits.maxStackSize) (h : m.RedeemsFirst)
    (hp : m.pending = .command command :: rest)
    (hstep : step { toEnv := env.withP2sh true } (.command command) { m with pending := rest } =
      .ok () m') :
    m'.events.any Event.isRedemption = true ∧
      (m.verdict { toEnv := env.withP2sh false } = .ok () ↔ m.CanCompare env.limits) := by
  obtain ⟨body, hash, hpending⟩ := h.pending_eq
  rw [hp] at hpending
  cases hpending
  have hflag : (env.withP2sh true).flags.p2sh = true := rfl
  obtain ⟨rfl, script, -, -, hevent⟩ :=
    redeemed_of_step (m := { m with pending := _ }) hflag rfl h.executing hstep
  obtain ⟨hsize, hminimal⟩ :=
    allowed_of_pushData (m := reported { m with pending := _ } _) h.executing (step_ok hstep).1
  refine ⟨List.any_eq_true.2 ⟨_, hevent, rfl⟩, ?_⟩
  exact verdict_comparison_iff rfl hwitness hhash hp h.executing hsize hminimal hcapacity

/-- A machine whose program has not changed is accepted without the rule if and only if there is room
for the comparison where the first script is redeemed, if it is accepted with the rule. -/
theorem verdict_without_p2sh (hwitness : env.flags.witness = false)
    (hhash : 20 ≤ env.limits.maxElementSize) (hword : env.limits.maxStackSize < 2 ^ 64)
    {script : Script} (hp : m.pending = script.map .command) (hm : m.InLimits env.limits)
    (hunredeemed : m.events.any Event.isRedemption = false)
    (hok : m.verdict { toEnv := env.withP2sh true } = .ok ()) :
    m.verdict { toEnv := env.withP2sh false } = .ok () ↔
      ∀ n next, after? { toEnv := env.withP2sh true } n m = some next → next.RedeemsFirst →
        next.CanCompare env.limits := by
  induction script generalizing m with
  | nil =>
    rw [verdict_nil_iff hp] at hok ⊢
    refine iff_of_true hok fun n next hafter hnext => ?_
    cases n with
    | zero =>
      cases hafter
      obtain ⟨body, hash, hpending⟩ := hnext.pending_eq
      rw [hp] at hpending
      cases hpending
    | succ n =>
      obtain ⟨entry, rest, _, hpending, -⟩ := after?_succ_eq_some hafter
      rw [hp] at hpending
      cases hpending
  | cons command script ih =>
    obtain ⟨next, hstep, hnext⟩ := (verdict_cons_iff hp).1 hok
    rw [forall_after?_iff hp hstep]
    by_cases hfirst : m.RedeemsFirst
    · obtain ⟨hevents, hiff⟩ :=
        verdict_of_redeemsFirst hwitness hhash hm.bounded.frame.stack.capacity_eq hfirst hp hstep
      rw [hiff]
      refine ⟨fun hcan => ⟨fun _ => hcan, fun n last hafter hlast => ?_⟩, fun h => h.1 hfirst⟩
      -- what has been redeemed once is not redeemed for the first time
      obtain ⟨event, hmem, hevent⟩ := List.any_eq_true.1 hevents
      exact absurd hevent (List.any_eq_false.1 hlast.unredeemed event (after?_events hafter hmem))
    · have huncompared (data : Bytes) (hdata : command = .push data) (hexec : m.isExecuting) :
          ({ m with pending := script.map .command } : Machine).pendingHash? = none := by
        apply pendingHash?_eq_none
        intro hash hpending
        refine hfirst ⟨hunredeemed, hexec, data, hash, ?_⟩
        rw [hp, List.map_cons, List.map_cons, hdata]
        exact congrArg _ hpending
      have hsame : step { toEnv := env.withP2sh false } (.command command)
          { m with pending := script.map .command } = .ok () next :=
        (step_withP2sh huncompared).symm.trans hstep
      obtain ⟨hkept, hevents⟩ := kept_of_step hwitness hsame
      rw [verdict_of_step_ok hp hsame,
        ih hkept (inLimits_of_step hword hm hp hstep).1 (hevents.trans hunredeemed) hnext]
      exact ⟨fun h => ⟨fun hredeems => absurd hredeems hfirst, h⟩, fun h => h.2⟩

end Machine

/-- If a spend is accepted with the rule on scripts given by their hash, and without witness programs,
then it is accepted without that rule if and only if there is room for the comparison with the hash
where the first script is redeemed: no conditional is open there, two operations are left, and there are
two places on the stacks. -/
theorem verifyScript_ok_without_p2sh {flags : Flags} {checker : Checker} {sighash : Digest 32}
    {scriptSig scriptPubKey : Script} {witness : List Bytes} (hwitness : flags.witness = false)
    (hok : verifyScript { flags with p2sh := true } checker sighash scriptSig scriptPubKey witness =
      .ok ()) :
    verifyScript { flags with p2sh := false } checker sighash scriptSig scriptPubKey witness =
        .ok () ↔
      ∀ n m, Machine.reached? { flags := { flags with p2sh := true }, checker, sighash }
          (scriptSig ++ scriptPubKey) witness .empty n = some m →
        m.RedeemsFirst → m.CanCompare {} := by
  have hsize := length_of_verifyScript hok
  have hlong : ¬({} : Limits).maxCommands < (scriptSig ++ scriptPubKey).length := Nat.not_lt.2 hsize
  rw [verifyScript_eq] at hok ⊢
  by_cases hpush : (flags.sigPushOnly && !scriptSig.isPushOnly) = true
  · rw [if_pos hpush] at hok
    cases hok
  · rw [if_neg hpush, if_neg hlong] at hok ⊢
    let env : Env := { flags, checker, sighash }
    have hprogram : env.flags.witness = false := hwitness
    have hhash : 20 ≤ ({} : Limits).maxElementSize := by decide
    have hword : ({} : Limits).maxStackSize < 2 ^ 64 := by decide
    have hstart : (Machine.start {} (scriptSig ++ scriptPubKey) witness).InLimits {} :=
      Machine.inLimits_start hsize
    simp only [Machine.reached?, if_neg hlong]
    exact Machine.verdict_without_p2sh hprogram hhash hword rfl hstart rfl hok

/-- A script that closes a conditional can be redeemed inside it, but the comparison cannot end there. -/
theorem verifyScript_ok_without_p2sh_open :
    verifyScript { p2sh := true } .rejecting (sha256 [])
        [.ofOpcode .op1, .ofOpcode .opIf, .push [0x51, 0x68]] (Script.p2sh (hash160 [0x51, 0x68])) [] =
      .ok () ∧
    verifyScript { p2sh := false } .rejecting (sha256 [])
        [.ofOpcode .op1, .ofOpcode .opIf, .push [0x51, 0x68]] (Script.p2sh (hash160 [0x51, 0x68])) [] ≠
      .ok () := by
  have hok : verifyScript { p2sh := true } .rejecting (sha256 [])
      [.ofOpcode .op1, .ofOpcode .opIf, .push [0x51, 0x68]] (Script.p2sh (hash160 [0x51, 0x68])) [] =
        .ok () :=
    verifyScript_of_runIn 8 rfl (by decide) (by decide +kernel)
  refine ⟨hok, fun h => ?_⟩
  let redeems : Machine → Bool := fun m =>
    !m.events.any Event.isRedemption && m.isExecuting && !m.branches.isEmpty &&
      m.pending = (.push [0x51, 0x68] :: Script.p2sh (hash160 [0x51, 0x68])).map .command
  have hreached : (Machine.reached? { flags := { p2sh := true }, sighash := sha256 [] }
      ([.ofOpcode .op1, .ofOpcode .opIf, .push [0x51, 0x68]] ++ Script.p2sh (hash160 [0x51, 0x68])) []
      .empty 2).any redeems := by decide +kernel
  obtain ⟨m, hm, hredeems⟩ := (Option.any_eq_true _ _).1 hreached
  simp only [redeems, Bool.and_eq_true, Bool.not_eq_true', decide_eq_true_eq] at hredeems
  obtain ⟨⟨⟨hevents, hexec⟩, hopen⟩, hpending⟩ := hredeems
  have hwitness : ({} : Flags).witness = false := rfl
  have hcan := (verifyScript_ok_without_p2sh hwitness hok).1 h 2 m hm
    ⟨hevents, hexec, _, _, hpending⟩
  rw [hcan.closed] at hopen
  cases hopen

end CoinScript
