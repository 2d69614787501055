import CoinScript.Eval

/-!
# What success tells

Whatever succeeds has done one thing after the other. This module says what the actions and the parts
of a step have found and changed when they succeed, so that nobody has to open them again.
-/

namespace CoinScript

/-! ## Actions -/

/-- The frame with these elements on the main stack. -/
def Frame.stacked (frame : Frame) (elements : List Bytes) : Frame :=
  { frame with stack := .ofList elements frame.stack.capacity }

@[simp] theorem Frame.elements_stacked (frame : Frame) (elements : List Bytes) :
    (frame.stacked elements).stack.elements = elements :=
  Stack.elements_ofList _ _

@[simp] theorem Frame.stacked_stacked (frame : Frame) (elements others : List Bytes) :
    (frame.stacked elements).stacked others = frame.stacked others := by
  simp [stacked]

theorem Frame.stacked_of_elements {frame : Frame} {elements : List Bytes}
    (h : frame.stack.elements = elements) : frame.stacked elements = frame := by
  rw [stacked, ← h, Stack.ofList_elements]

@[simp] theorem Frame.size_stacked (frame : Frame) (elements : List Bytes) :
    (frame.stacked elements).size = elements.length + frame.altStack.length := by
  simp [stacked, size]

namespace Action

variable {α β : Type} {frame frame' : Frame}

theorem bind_of_ok {x : Action α} {f : α → Action β} {a : α} (h : x frame = .ok a frame') :
    (x >>= f) frame = f a frame' := by
  simp only [bind, EStateM.bind, h]

theorem bind_of_error {x : Action α} {f : α → Action β} {e : EvalError} {last : Frame}
    (h : x frame = .error e last) : (x >>= f) frame = .error e last := by
  simp only [bind, EStateM.bind, h]

theorem bind_eq_ok {x : Action α} {f : α → Action β} {b : β} (h : (x >>= f) frame = .ok b frame') :
    ∃ a next, x frame = .ok a next ∧ f a next = .ok b frame' := by
  simp only [bind, EStateM.bind] at h
  cases hx : x frame with
  | ok a next =>
    rw [hx] at h
    exact ⟨a, next, rfl, h⟩
  | error e next =>
    rw [hx] at h
    cases h

theorem look_eq_ok {f : Stack Bytes → Except Stack.Error α} {a : α}
    (h : look f frame = .ok a frame') : f frame.stack = .ok a ∧ frame = frame' := by
  unfold look at h
  cases hf : f frame.stack with
  | ok b =>
    rw [hf] at h
    cases h
    exact ⟨rfl, rfl⟩
  | error e =>
    rw [hf] at h
    cases h

theorem pop_eq_ok {top : Bytes} (h : pop frame = .ok top frame') :
    ∃ rest, frame.stack.elements = top :: rest ∧
      frame' = { frame with stack := .ofList rest frame.stack.capacity } := by
  unfold pop take at h
  cases hs : frame.stack.elements with
  | nil =>
    rw [Stack.pop_of_nil hs] at h
    cases h
  | cons first rest =>
    rw [Stack.pop_of_cons hs] at h
    cases h
    exact ⟨rest, rfl, rfl⟩

theorem push_eq_ok {element : Bytes} (h : push element frame = .ok () frame') :
    frame' = { frame with
      stack := .ofList (element :: frame.stack.elements) frame.stack.capacity } := by
  simp only [push, alter, take, Stack.push_eq] at h
  by_cases hroom : frame.stack.length < frame.stack.capacity
  · simp only [hroom, if_true, Except.map] at h
    cases h
    rfl
  · simp [hroom, Except.map] at h

theorem pop_of_cons {top : Bytes} {rest : List Bytes} (h : frame.stack.elements = top :: rest) :
    pop frame = .ok top (frame.stacked rest) := by
  simp only [pop, take, Stack.pop_of_cons h, Frame.stacked]

theorem pop_of_lt (h : frame.stack.length < 1) :
    pop frame = .error (.invalidStackOperation .empty) frame := by
  have hnil : frame.stack.elements = [] := by
    rw [frame.stack.length_eq] at h
    exact List.eq_nil_of_length_eq_zero (Nat.lt_one_iff.1 h)
  simp only [pop, take, Stack.pop_of_nil hnil]
  rfl

/-- An element is pushed where others have just been taken off. -/
theorem push_stacked {element : Bytes} {rest : List Bytes}
    (h : rest.length < frame.stack.capacity) :
    push element (frame.stacked rest) = .ok () (frame.stacked (element :: rest)) := by
  simp [push, alter, take, Stack.push_eq, Frame.stacked, h, Except.map]

theorem popNum_of_cons {env : Env} {element : Bytes} {rest : List Bytes} {n : Int}
    (h : frame.stack.elements = element :: rest)
    (hnum : ScriptNum.decode env.flags.minimalData ScriptNum.operandSize element = .ok n) :
    popNum env frame = .ok n (frame.stacked rest) := by
  rw [popNum, bind_of_ok (pop_of_cons h), readNum, hnum]
  rfl

theorem popNum_of_error {env : Env} {element : Bytes} {rest : List Bytes} {e : ScriptNum.Error}
    (h : frame.stack.elements = element :: rest)
    (hnum : ScriptNum.decode env.flags.minimalData ScriptNum.operandSize element = .error e) :
    popNum env frame = .error (.num e) (frame.stacked rest) := by
  rw [popNum, bind_of_ok (pop_of_cons h), readNum, hnum]
  rfl

theorem require_of_le {n : Nat} (h : n ≤ frame.stack.length) : require n frame = .ok () frame := by
  simp [require, look, Nat.not_lt.2 h]

theorem require_of_lt {n : Nat} (h : frame.stack.length < n) :
    require n frame = .error (.invalidStackOperation (.notFound n frame.stack.length)) frame := by
  simp only [require, look, if_pos h]
  rfl

theorem peekNth_one_eq_ok {top : Bytes} (h : peekNth 1 frame = .ok top frame') :
    ∃ rest, frame.stack.elements = top :: rest ∧ frame = frame' := by
  obtain ⟨hs, rfl⟩ := look_eq_ok h
  simp only [Stack.peekNth, Stack.nth?] at hs
  cases hs' : frame.stack.elements with
  | nil => simp [hs'] at hs
  | cons first rest =>
    simp only [hs', List.getElem?_cons_zero, Except.ok.injEq] at hs
    exact ⟨rest, by rw [hs], rfl⟩

theorem orFail_eq_ok {ε : Type} {toError : ε → EvalError} {x : Except ε α} {a : α}
    (h : orFail toError x frame = .ok a frame') : x = .ok a ∧ frame = frame' := by
  cases x with
  | ok b =>
    cases h
    exact ⟨rfl, rfl⟩
  | error e => cases h

theorem verify_eq_ok {byte : UInt8} {success : Bool} (h : verify byte success frame = .ok () frame') :
    success = true ∧ frame = frame' := by
  unfold verify at h
  split at h
  · rename_i hsuccess
    cases h
    exact ⟨hsuccess, rfl⟩
  · cases h

/-- The top is taken off the stack if it is true, and otherwise it stays. -/
theorem verifyTop_of_cons {top : Bytes} {rest : List Bytes} (byte : UInt8)
    (h : frame.stack.elements = top :: rest) :
    verifyTop byte frame =
      if Element.isTrue top then .ok () (frame.stacked rest) else .error (.verify byte) frame := by
  have hpeek : peek frame = .ok top frame := by simp only [peek, look, Stack.peek, h]
  rw [verifyTop, bind_of_ok hpeek]
  cases Element.isTrue top with
  | false => rfl
  | true => exact bind_of_ok (pop_of_cons h)

/-- A lock time that is accepted stays where it was. -/
theorem checkLockTime_eq_ok {env : Env} (hflag : env.flags.checkLockTimeVerify)
    (h : checkLockTime env frame = .ok () frame') :
    ∃ lockTime, frame' = { frame with asked := .lockTime lockTime :: frame.asked } := by
  unfold checkLockTime at h
  rw [if_pos hflag] at h
  obtain ⟨top, frame₁, h₁, h⟩ := bind_eq_ok h
  obtain ⟨-, rfl⟩ := look_eq_ok h₁
  obtain ⟨lockTime, frame₂, h₂, h⟩ := bind_eq_ok h
  obtain ⟨-, rfl⟩ := orFail_eq_ok h₂
  split at h
  · cases h
  · obtain ⟨reached, frame₃, h₃, h⟩ := bind_eq_ok h
    cases h₃
    split at h
    · cases h
      exact ⟨lockTime, rfl⟩
    · cases h

/-! ## The opcodes of a payment to a key -/

theorem dup_eq_ok (h : dup frame = .ok () frame') :
    ∃ top rest, frame.stack.elements = top :: rest ∧
      frame'.stack.elements = top :: top :: rest := by
  obtain ⟨top, frame₁, h₁, h⟩ := bind_eq_ok h
  obtain ⟨rest, hs, rfl⟩ := peekNth_one_eq_ok h₁
  have hf := push_eq_ok h
  subst hf
  exact ⟨top, rest, hs, by simp [hs]⟩

theorem hash160_eq_ok (h : hash Opcode.opHash160.byte frame = .ok () frame') :
    ∃ top rest, frame.stack.elements = top :: rest ∧
      frame'.stack.elements = (hash160 top).bytes :: rest := by
  obtain ⟨top, frame₁, h₁, h⟩ := bind_eq_ok h
  obtain ⟨rest, hs, rfl⟩ := pop_eq_ok h₁
  simp only [Opcode.ofByte?_byte, Option.bind_some, hashResult?] at h
  have hf := push_eq_ok h
  subst hf
  exact ⟨top, rest, hs, rfl⟩

/-- Two elements are taken off and compared; what follows depends on the opcode. -/
theorem equal_eq_ok {byte : UInt8} (h : equal byte frame = .ok () frame') :
    ∃ x y rest next, frame.stack.elements = y :: x :: rest ∧ next.stack.elements = rest ∧
      concludeCheck .opEqualVerify byte (x = y) next = .ok () frame' := by
  obtain ⟨_, frame₁, h₁, h⟩ := bind_eq_ok h
  obtain ⟨-, rfl⟩ := look_eq_ok h₁
  obtain ⟨y, frame₂, h₂, h⟩ := bind_eq_ok h
  obtain ⟨rest, hs, rfl⟩ := pop_eq_ok h₂
  obtain ⟨x, frame₃, h₃, h⟩ := bind_eq_ok h
  obtain ⟨rest', hs', rfl⟩ := pop_eq_ok h₃
  simp only [Stack.elements_ofList] at hs'
  exact ⟨x, y, rest', _, by rw [hs, hs'], rfl, h⟩

theorem equalVerify_eq_ok (h : equal Opcode.opEqualVerify.byte frame = .ok () frame') :
    ∃ x rest, frame.stack.elements = x :: x :: rest ∧ frame'.stack.elements = rest := by
  obtain ⟨x, y, rest, next, hs, hrest, h⟩ := equal_eq_ok h
  simp only [concludeCheck, if_true] at h
  obtain ⟨hsame, rfl⟩ := verify_eq_ok h
  obtain rfl : x = y := of_decide_eq_true hsame
  exact ⟨x, rest, hs, hrest⟩

theorem opEqual_eq_ok (h : equal Opcode.opEqual.byte frame = .ok () frame') :
    ∃ x y rest, frame.stack.elements = y :: x :: rest ∧
      frame'.stack.elements = Element.ofBool (x = y) :: rest := by
  obtain ⟨x, y, rest, next, hs, hrest, h⟩ := equal_eq_ok h
  have hbyte : Opcode.opEqual.byte ≠ Opcode.opEqualVerify.byte := by decide
  simp only [concludeCheck, hbyte, if_false] at h
  refine ⟨x, y, rest, hs, ?_⟩
  rw [push_eq_ok h, Stack.elements_ofList, hrest]

theorem checkSig_eq_ok {env : Env} (h : checkSig env Opcode.opCheckSig.byte frame = .ok () frame') :
    ∃ sig key rest, frame.stack.elements = key :: sig :: rest ∧
      frame'.stack.elements = Element.ofBool (env.checker.checkSig sig key env.sighash) :: rest := by
  obtain ⟨_, frame₁, h₁, h⟩ := bind_eq_ok h
  obtain ⟨-, rfl⟩ := look_eq_ok h₁
  obtain ⟨key, frame₂, h₂, h⟩ := bind_eq_ok h
  obtain ⟨rest, hs, rfl⟩ := pop_eq_ok h₂
  obtain ⟨sig, frame₃, h₃, h⟩ := bind_eq_ok h
  obtain ⟨rest', hs', rfl⟩ := pop_eq_ok h₃
  obtain ⟨success, frame₄, h₄, h⟩ := bind_eq_ok h
  obtain ⟨_, frame₅, h₅, h₄⟩ := bind_eq_ok h₄
  obtain ⟨-, rfl⟩ := orFail_eq_ok h₅
  obtain ⟨_, frame₆, h₆, h₄⟩ := bind_eq_ok h₄
  obtain ⟨-, rfl⟩ := orFail_eq_ok h₆
  cases h₄
  have hbyte : Opcode.opCheckSig.byte ≠ Opcode.opCheckSigVerify.byte := by decide
  simp only [concludeCheck, hbyte, if_false] at h
  have hf := push_eq_ok h
  subst hf
  simp only [Stack.elements_ofList] at hs'
  exact ⟨sig, key, rest', by rw [hs, hs'], rfl⟩

end Action

/-! ## Pushes -/

/-- What is read from a body does not depend on the pool. -/
theorem Script.parseRawWith_eq (pool : BufferPool) (body : Bytes) :
    (parseRawWith pool body).1 = parseRaw body := by
  simp only [parseRaw, parseRawWith, Buffer.append, BufferPool.borrow_bytes]

/-- What is read from a body can be found out by comparing options. -/
theorem Script.parseRaw_of_toOption {body : Bytes} {script : Script}
    (h : (parseRaw body).toOption = some script) : parseRaw body = .ok script := by
  cases hparse : parseRaw body with
  | ok parsed =>
    rw [hparse] at h
    cases h
    rfl
  | error e =>
    rw [hparse] at h
    cases h

namespace Machine

variable {m m' : Machine}

/-- The machine with data on top of its stack. -/
def pushed (m : Machine) (data : Bytes) : Machine :=
  { m with
    frame := { m.frame with
      stack := .ofList (data :: m.frame.stack.elements) m.frame.stack.capacity } }

/-- The rule on scripts given by their hash leads from one machine to another. -/
inductive Redeemed : Machine → Machine → Prop where
  | nothing {m : Machine} (hpending : m.pendingHash? = none) : Redeemed m m
  | script {m : Machine} {hash : Digest 20} {body : Bytes} {rest : List Bytes} {script : Script}
      {pool : BufferPool} (hpending : m.pendingHash? = some hash)
      (hstack : m.frame.stack.elements = body :: rest) (hhash : hash160 body = hash)
      (hparse : Script.parseRawWith m.pool body = (.ok script, pool)) :
    Redeemed m { m with
      frame := { m.frame with stack := .ofList rest m.frame.stack.capacity }
      pending := script.map .command
      pool
      events := .redeemed hash script :: m.events }

/-- The rule on witness programs leads from one machine to another. -/
inductive Expanded : Machine → Machine → Prop where
  | nothing {m : Machine} (hstack : witnessProgram? m.frame.stack = none) : Expanded m m
  | key {m : Machine} {hash : Digest 20}
      (hstack : witnessProgram? m.frame.stack = some (.pubKeyHash hash)) :
    Expanded m { m with
      frame := { m.frame with stack := .ofList [] m.frame.stack.capacity }
      pending := m.pending ++ (m.witness.map .witness ++ (Script.p2pkh hash).map .command)
      witness := []
      events := .expandedKey hash m.witness :: m.events }
  | script {m : Machine} {hash : Digest 32} {elements : List Bytes} {body : Bytes} {script : Script}
      {pool : BufferPool} (hstack : witnessProgram? m.frame.stack = some (.scriptHash hash))
      (hwitness : m.witness = elements ++ [body]) (hhash : sha256 body = hash)
      (hparse : Script.parseRawWith m.pool body = (.ok script, pool)) :
    Expanded m { m with
      frame := { m.frame with stack := .ofList [] m.frame.stack.capacity }
      pending := m.pending ++ (elements.map .witness ++ script.map .command)
      witness := []
      pool
      events := .expandedScript hash elements script :: m.events }

/-- The program that compares with a hash is the one that pays to a script. -/
theorem pendingHash?_eq_some_iff {hash : Digest 20} :
    m.pendingHash? = some hash ↔ m.pending = (Script.p2sh hash).map .command := by
  constructor
  · intro h
    unfold pendingHash? at h
    split at h
    · rename_i a b c hp
      unfold Script.scriptHashCheck? at h
      split at h
      · rename_i hs
        split at h
        · rename_i hbytes
          obtain ⟨rfl, rfl⟩ := hbytes
          rw [Digest.ofBytes?_eq_some_iff] at h
          cases hs
          rw [hp, h]
          rfl
        · cases h
      · cases h
    · cases h
  · intro h
    simp [pendingHash?, h, Script.p2sh, Script.scriptHashCheck?, Command.ofOpcode]

theorem pendingHash?_eq_none (h : ∀ hash, m.pending ≠ (Script.p2sh hash).map .command) :
    m.pendingHash? = none := by
  rw [Option.eq_none_iff_forall_ne_some]
  intro hash hsome
  exact h hash (pendingHash?_eq_some_iff.1 hsome)

theorem parseInjected_eq (body : Bytes) (m : Machine) :
    ∃ pool, parseInjected body m = match Script.parseRaw body with
      | .ok script => .ok script { m with pool }
      | .error e => .error (.injectedScript e) { m with pool } := by
  unfold parseInjected
  rw [← Script.parseRawWith_eq m.pool body]
  cases Script.parseRawWith m.pool body with
  | mk result pool =>
    refine ⟨pool, ?_⟩
    cases result <;> rfl

theorem parseInjected_ok {body : Bytes} {script : Script}
    (h : parseInjected body m = .ok script m') :
    ∃ pool, Script.parseRawWith m.pool body = (.ok script, pool) ∧ m' = { m with pool } := by
  unfold parseInjected at h
  cases hp : Script.parseRawWith m.pool body with
  | mk result pool =>
    rw [hp] at h
    cases result with
    | error e => cases h
    | ok parsed =>
      cases h
      exact ⟨pool, rfl, rfl⟩

theorem redeemPending_eq (limits : Limits) (m : Machine) :
    redeemPending limits m = match m.pendingHash? with
      | some hash => redeem limits hash m
      | none => .ok () m := by
  have hget : redeemPending limits m = (match m.pendingHash? with
      | some hash => redeem limits hash
      | none => pure () : Step Unit) m := rfl
  rw [hget]
  cases m.pendingHash? <;> rfl

theorem redeemed_of_redeemPending {limits : Limits} (h : redeemPending limits m = .ok () m') :
    Redeemed m m' := by
  rw [redeemPending_eq] at h
  cases hp : m.pendingHash? with
  | none =>
    rw [hp] at h
    cases h
    exact .nothing hp
  | some hash =>
    rw [hp] at h
    unfold redeem at h
    obtain ⟨_, m₁, h₁, h⟩ := bind_eq_ok h
    cases h₁
    obtain ⟨body, m₂, h₂, h⟩ := bind_eq_ok h
    obtain ⟨rest, hstack, rfl⟩ := act_pop_eq_ok h₂
    split at h
    · rename_i hhash
      obtain ⟨script, m₃, h₃, h⟩ := bind_eq_ok h
      obtain ⟨pool, hparse, rfl⟩ := parseInjected_ok h₃
      obtain ⟨_, m₄, h₄, h⟩ := bind_eq_ok h
      cases h₄
      have hnext := runNext_eq_ok h
      subst hnext
      simpa using Redeemed.script hp hstack hhash hparse
    · cases h

theorem act_drop_ok (h : act Action.drop m = .ok () m') :
    ∃ top rest, m.frame.stack.elements = top :: rest ∧
      m' = { m with frame := { m.frame with stack := .ofList rest m.frame.stack.capacity } } := by
  obtain ⟨frame, hf, rfl⟩ := act_eq_ok h
  obtain ⟨top, frame₁, h₁, h₂⟩ := Action.bind_eq_ok hf
  obtain ⟨rest, hs, rfl⟩ := Action.pop_eq_ok h₁
  cases h₂
  exact ⟨top, rest, hs, rfl⟩

theorem witnessProgram?_length {stack : Stack Bytes} {program : WitnessProgram}
    (h : witnessProgram? stack = some program) : ∃ bytes, stack.elements = [bytes, []] := by
  unfold witnessProgram? at h
  split at h
  · rename_i bytes hs
    exact ⟨bytes, hs⟩
  · cases h

/-- A stack that amounts to a program holds its bytes above the empty version. -/
theorem elements_of_witnessProgram? {stack : Stack Bytes} {program : WitnessProgram}
    (h : witnessProgram? stack = some program) : stack.elements = [program.bytes, []] := by
  obtain ⟨bytes, hs⟩ := witnessProgram?_length h
  simp only [witnessProgram?, hs] at h
  rw [hs, WitnessProgram.bytes_of_ofBytes? h]

theorem expandWitness_eq (limits : Limits) (m : Machine) :
    expandWitness limits m = match witnessProgram? m.frame.stack with
      | some program => (do act Action.drop; act Action.drop; expand limits program) m
      | none => .ok () m := by
  have hget : expandWitness limits m = (match witnessProgram? m.frame.stack with
      | some program => do act Action.drop; act Action.drop; expand limits program
      | none => pure () : Step Unit) m := rfl
  rw [hget]
  cases witnessProgram? m.frame.stack <;> rfl

theorem expanded_of_expandWitness {limits : Limits} (h : expandWitness limits m = .ok () m') :
    Expanded m m' := by
  rw [expandWitness_eq] at h
  cases hp : witnessProgram? m.frame.stack with
  | none =>
    rw [hp] at h
    cases h
    exact .nothing hp
  | some program =>
    rw [hp] at h
    obtain ⟨bytes, hs⟩ := witnessProgram?_length hp
    obtain ⟨_, m₁, h₁, h⟩ := bind_eq_ok h
    obtain ⟨top, rest, hs₁, rfl⟩ := act_drop_ok h₁
    obtain ⟨_, m₂, h₂, h⟩ := bind_eq_ok h
    obtain ⟨top', rest', hs₂, rfl⟩ := act_drop_ok h₂
    have hrest : rest' = [] := by simp_all
    subst hrest
    cases program with
    | pubKeyHash hash =>
      obtain ⟨witness, m₃, h₃, h⟩ := bind_eq_ok h
      cases h₃
      obtain ⟨_, m₄, h₄, h⟩ := bind_eq_ok h
      cases h₄
      have hlast := runLast_eq_ok h
      subst hlast
      exact .key hp
    | scriptHash hash =>
      obtain ⟨witness, m₃, h₃, h⟩ := bind_eq_ok h
      cases h₃
      cases hlast : m.witness.getLast? with
      | none =>
        rw [hlast] at h
        cases h
      | some body =>
        rw [hlast] at h
        simp only at h
        split at h
        · rename_i hhash
          obtain ⟨script, m₄, h₄, h⟩ := bind_eq_ok h
          obtain ⟨pool, hparse, rfl⟩ := parseInjected_ok h₄
          obtain ⟨_, m₅, h₅, h⟩ := bind_eq_ok h
          cases h₅
          have hlast' := runLast_eq_ok h
          subst hlast'
          refine .script hp ?_ hhash hparse
          obtain ⟨elements, hw⟩ := List.getLast?_eq_some_iff.1 hlast
          rw [hw, List.dropLast_concat]
        · cases h

theorem pushData_eq (env : Env) (scripted : Bool) (data : Bytes) (m : Machine) :
    pushData env scripted data m =
      if env.limits.maxElementSize < data.length then .error .pushSize m
      else if !m.isExecuting then .ok () m
      else (if scripted && env.flags.minimalData && !Element.needsPush data then throw .minimalData
        else do
          act (Action.push data)
          onlyIf env.flags.p2sh (redeemPending env.limits)
          onlyIf env.flags.witness (expandWitness env.limits) : Step Unit) m := by
  by_cases hsize : env.limits.maxElementSize < data.length
  · simp only [pushData, if_pos hsize]
    rfl
  · have hget : pushData env scripted data m = (if !m.isExecuting then pure ()
        else if scripted && env.flags.minimalData && !Element.needsPush data then throw .minimalData
        else do
          act (Action.push data)
          onlyIf env.flags.p2sh (redeemPending env.limits)
          onlyIf env.flags.witness (expandWitness env.limits) : Step Unit) m := by
      simp only [pushData, if_neg hsize]
      rfl
    rw [hget, if_neg hsize]
    split <;> rfl

/-- A push that succeeds is small enough. It does nothing in an arm that does not run; otherwise the
data goes on the stack, and then the two rules apply, as far as they are switched on. -/
theorem pushData_ok {env : Env} {scripted : Bool} {data : Bytes}
    (h : pushData env scripted data m = .ok () m') :
    data.length ≤ env.limits.maxElementSize ∧
      ((m.isExecuting = false ∧ m = m') ∨
        (m.isExecuting = true ∧ ∃ m₁,
          (env.flags.p2sh = true ∧ Redeemed (m.pushed data) m₁ ∨
            env.flags.p2sh = false ∧ m.pushed data = m₁) ∧
          (env.flags.witness = true ∧ Expanded m₁ m' ∨ env.flags.witness = false ∧ m₁ = m'))) := by
  rw [pushData_eq] at h
  split at h
  · cases h
  · rename_i hlen
    refine ⟨Nat.le_of_not_lt hlen, ?_⟩
    split at h
    · rename_i hexec
      cases h
      exact .inl ⟨by simpa using hexec, rfl⟩
    · rename_i hexec
      refine .inr ⟨by simpa using hexec, ?_⟩
      split at h
      · cases h
      · obtain ⟨_, m₁, h₁, h⟩ := bind_eq_ok h
        have hpush : m₁ = m.pushed data := act_push_eq_ok h₁
        subst hpush
        obtain ⟨_, m₂, h₂, h⟩ := bind_eq_ok h
        refine ⟨m₂, ?_, ?_⟩
        · exact (onlyIf_ok h₂).imp_left fun h => ⟨h.1, redeemed_of_redeemPending h.2⟩
        · exact (onlyIf_ok h).imp_left fun h => ⟨h.1, expanded_of_expandWitness h.2⟩

/-! ## The end -/

theorem finish_of_cons {top : Bytes} {rest : List Bytes} (hclosed : m.branches.isEmpty)
    (h : m.frame.stack.elements = top :: rest) :
    finish m = if Element.isSuccess top then .ok () m else .error .evalFalse m := by
  simp only [finish, hclosed, Stack.peek, h, Bool.not_true, Bool.false_eq_true, if_false]

/-- At the end no conditional is open and the top of the stack is a success. -/
theorem finish_ok (h : finish m = .ok () m') :
    m = m' ∧ m.branches.isEmpty = true ∧
      ∃ top rest, m.frame.stack.elements = top :: rest ∧ Element.isSuccess top = true := by
  unfold finish at h
  split at h
  · cases h
  · rename_i hopen
    cases hs : m.frame.stack.elements with
    | nil =>
      simp [Stack.peek, hs] at h
    | cons top rest =>
      simp only [Stack.peek, hs] at h
      split at h
      · rename_i htop
        cases h
        exact ⟨rfl, by simpa using hopen, top, rest, rfl, htop⟩
      · cases h

theorem finish_error {e : EvalError} (h : finish m = .error e m') : m = m' := by
  unfold finish at h
  split at h
  · cases h
    rfl
  · split at h
    · split at h
      · cases h
      · cases h
        rfl
    · cases h
      rfl

end Machine

end CoinScript
