import CoinScript.Proofs.Arithmetic
import CoinScript.Proofs.Footprint

/-!
# Opcodes that verify

Four checks come in two opcodes each: one leaves the outcome on the stack, the other fails unless the check
succeeded. Both have the same handler, and it makes the check before it looks at which of the two it is. The
main result is that the second opcode does what the first does with `OP_VERIFY` after it, up to the failure
that is reported. This needs that a check never fills the stack, so that there is room for the outcome.
-/

namespace CoinScript

/-- The opcode that verifies what another one leaves, and the result code of its failure. -/
def Opcode.verifying? : Opcode → Option (Opcode × ResultCode)
  | .opEqual => some (.opEqualVerify, .equalVerify)
  | .opNumEqual => some (.opNumEqualVerify, .numEqualVerify)
  | .opCheckSig => some (.opCheckSigVerify, .checkSigVerify)
  | .opCheckMultiSig => some (.opCheckMultiSigVerify, .checkMultisigVerify)
  | _ => none

/-! ## Room on the stack -/

/-- Whether another element can be put on the main stack. -/
def Frame.HasRoom (frame : Frame) : Prop := frame.stack.length < frame.stack.capacity

namespace Action

variable {α β : Type} {env : Env}

theorem keptByTaking_hasRoom : KeptByTaking Frame.HasRoom where
  pop := by
    intro frame element frame' hframe hrun
    obtain ⟨rest, hstack, rfl⟩ := pop_eq_ok hrun
    rw [Frame.HasRoom, frame.stack.length_eq, hstack, List.length_cons] at hframe
    exact ⟨Nat.lt_of_succ_lt hframe, trivial⟩
  asked := fun _ _ hframe => hframe

/-- If it succeeds on a stack that may be full, there is room afterwards. -/
def MakesRoom (x : Action α) : Prop :=
  ∀ frame a frame', frame.stack.length ≤ frame.stack.capacity → x frame = .ok a frame' →
    frame'.HasRoom

theorem makesRoom_pop : MakesRoom pop := by
  intro frame element frame' hframe hrun
  obtain ⟨rest, hstack, rfl⟩ := pop_eq_ok hrun
  rw [frame.stack.length_eq, hstack] at hframe
  exact hframe

theorem makesRoom_bind {x : Action α} {f : α → Action β} (hx : MakesRoom x)
    (hf : ∀ a, Keeps Frame.HasRoom (f a) fun _ => True) : MakesRoom (x >>= f) := by
  intro frame b frame' hframe hrun
  obtain ⟨a, next, hfirst, hrest⟩ := bind_eq_ok hrun
  exact (hf a next b frame' (hx frame a next hframe hfirst) hrest).1

theorem makesRoom_require {n : Nat} {x : Action α} (hx : MakesRoom x) :
    MakesRoom (do require n; x) := by
  intro frame a frame' hframe hrun
  obtain ⟨_, next, hrequire, hrest⟩ := bind_eq_ok hrun
  obtain ⟨-, rfl⟩ := look_eq_ok hrequire
  exact hx frame a frame' hframe hrest

theorem makesRoom_popNum : MakesRoom (popNum env) :=
  makesRoom_bind makesRoom_pop fun _ => keeps_orFail _ fun _ _ => trivial

/-! ## Checks -/

/-- Whether two elements are the same. -/
def checkEqual : Action Bool := do
  require 2
  let x2 ← pop
  let x1 ← pop
  return x1 = x2

/-- Whether two numbers are the same. -/
def checkNumEqual (env : Env) : Action Bool := do
  require 2
  let b ← popNum env
  let a ← popNum env
  return a = b

/-- Whether a signature is accepted under a key. -/
def checkOneSig (env : Env) : Action Bool := do
  require 2
  let key ← pop
  let sig ← pop
  checkSignature env sig key

/-- Whether every signature is accepted under one of the keys. -/
def checkManySigs (env : Env) : Action Bool := do
  let keys ← popKeys env
  let sigs ← popSigs env keys.length
  popDummy env
  matchKeys env sigs keys

theorem makesRoom_checkEqual : MakesRoom checkEqual := by
  refine makesRoom_require (makesRoom_bind makesRoom_pop fun _ => ?_)
  exact keeps_bind keptByTaking_hasRoom.pop fun _ _ => keeps_pure trivial

theorem makesRoom_checkNumEqual : MakesRoom (checkNumEqual env) := by
  refine makesRoom_require (makesRoom_bind makesRoom_popNum fun _ => ?_)
  exact keeps_bind keptByTaking_hasRoom.popNum fun _ _ => keeps_pure trivial

theorem makesRoom_checkOneSig : MakesRoom (checkOneSig env) := by
  refine makesRoom_require (makesRoom_bind makesRoom_pop fun key => ?_)
  exact keeps_bind keptByTaking_hasRoom.pop fun sig _ => keptByTaking_hasRoom.checkSignature sig key

theorem keepsRoom_charge (limits : Limits) (n : Nat) :
    Keeps Frame.HasRoom (charge limits n) fun _ => True := by
  intro frame _ frame' hframe hrun
  obtain ⟨-, rfl⟩ := charge_eq_ok hrun
  exact ⟨hframe, trivial⟩

theorem makesRoom_checkManySigs : MakesRoom (checkManySigs env) := by
  -- The number of keys is the first thing that is taken; after it there is room, and nothing is put back.
  have hpopKeys : MakesRoom (popKeys env) := by
    refine makesRoom_bind makesRoom_popNum fun count => keeps_ite (keeps_throw _) ?_
    exact keeps_bind (keepsRoom_charge _ _) fun _ _ => keptByTaking_hasRoom.popList _
  refine makesRoom_bind hpopKeys fun keys => ?_
  refine keeps_bind (keptByTaking_hasRoom.popSigs _) fun sigs _ => ?_
  exact keeps_bind keptByTaking_hasRoom.popDummy fun _ _ => keptByTaking_hasRoom.matchKeys sigs keys

variable {op verifying : Opcode} {code : ResultCode}

theorem concludeCheck_self : concludeCheck verifying verifying.byte = verify verifying.byte := by
  funext success
  exact if_pos rfl

theorem concludeCheck_of_ne (h : op ≠ verifying) : concludeCheck verifying op.byte = pushBool := by
  funext success
  exact if_neg (mt Opcode.byte_inj.1 h)

theorem equal_eq (byte : UInt8) :
    equal byte = (do concludeCheck .opEqualVerify byte (← checkEqual)) := by
  simp only [equal, checkEqual, bind_assoc, pure_bind]

theorem checkSig_eq (byte : UInt8) :
    checkSig env byte = (do concludeCheck .opCheckSigVerify byte (← checkOneSig env)) := by
  simp only [checkSig, checkOneSig, bind_assoc]

theorem checkMultiSig_eq (byte : UInt8) :
    checkMultiSig env byte = (do concludeCheck .opCheckMultiSigVerify byte (← checkManySigs env)) := by
  simp only [checkMultiSig, checkManySigs, bind_assoc]

/-- The outcome of this check goes through a number, which comes to the same. -/
theorem concludeNum_numEqual (hop : op ∈ [.opNumEqual, .opNumEqualVerify]) (a b : Int) :
    concludeNum op [a, b] = concludeCheck .opNumEqualVerify op.byte (a = b) := by
  rcases List.mem_pair.1 hop with rfl | rfl
  · rw [concludeCheck_of_ne (by decide)]
    exact congrArg push (encode_truth (a = b))
  · rw [concludeCheck_self, ← decide_eq_decide.2 truth_ne_zero_iff]
    rfl

theorem binaryNum_eq (hop : op ∈ [.opNumEqual, .opNumEqualVerify]) :
    binaryNum env op.byte = (do concludeCheck .opNumEqualVerify op.byte (← checkNumEqual env)) := by
  simp only [binaryNum_eq_calculate, calculate_two, checkNumEqual, bind_assoc, pure_bind,
    concludeNum_numEqual hop]

/-- Both opcodes make the same check, which leaves room on the stack, and then deal with its outcome. -/
theorem run_eq_concludeCheck (env : Env) (hop : op.verifying? = some (verifying, code)) :
    ∃ (handler : Handler) (check : Action Bool),
      OpcodeTable.standard.handler? op.byte = some handler ∧
      OpcodeTable.standard.handler? verifying.byte = some handler ∧ MakesRoom check ∧
      ∀ either ∈ [op, verifying],
        handler.run env either.byte = (do concludeCheck verifying either.byte (← check)) := by
  rw [OpcodeTable.standard_byte, OpcodeTable.standard_byte]
  cases op with
  | opEqual =>
    cases hop
    exact ⟨.equal, _, rfl, rfl, makesRoom_checkEqual, fun either _ => equal_eq either.byte⟩
  | opNumEqual =>
    cases hop
    exact ⟨.binaryNum, _, rfl, rfl, makesRoom_checkNumEqual, fun either h => binaryNum_eq h⟩
  | opCheckSig =>
    cases hop
    exact ⟨.checkSig, _, rfl, rfl, makesRoom_checkOneSig, fun either _ => checkSig_eq either.byte⟩
  | opCheckMultiSig =>
    cases hop
    exact ⟨.checkMultiSig, _, rfl, rfl, makesRoom_checkManySigs,
      fun either _ => checkMultiSig_eq either.byte⟩
  | _ => cases hop

/-! ## Outcomes -/

variable {frame : Frame} {check : Action Bool}

/-- If the outcome of a check cannot be left, there is none: it would find room on the stack. -/
theorem verify_of_pushBool_error (hcheck : MakesRoom check)
    (hroom : frame.stack.length ≤ frame.stack.capacity) {byte : UInt8} {e : EvalError} {last : Frame}
    (h : (check >>= pushBool) frame = .error e last) :
    (check >>= verify byte) frame = .error e last := by
  cases hrun : check frame with
  | error e' last' =>
    rw [bind_of_error hrun] at h ⊢
    exact h
  | ok success next =>
    have hnext : next.stack.elements.length < next.stack.capacity :=
      next.stack.length_eq ▸ hcheck frame success next hroom hrun
    have hpush : pushBool success (next.stacked next.stack.elements) = .ok () _ := push_stacked hnext
    rw [Frame.stacked_of_elements rfl] at hpush
    rw [bind_of_ok hrun, hpush] at h
    cases h

/-- What has been left is the outcome of the check. -/
theorem pushBool_eq_ok {next : Frame} (h : (check >>= pushBool) frame = .ok () next) :
    ∃ success middle, check frame = .ok success middle ∧
      next = middle.stacked (Element.ofBool success :: middle.stack.elements) := by
  obtain ⟨success, middle, hrun, hpush⟩ := bind_eq_ok h
  exact ⟨success, middle, hrun, push_eq_ok hpush⟩

/-- An outcome is taken off the stack if it is true. -/
theorem verifyTop_ofBool_eq_ok {byte : UInt8} {success : Bool} {last : Frame}
    (h : verifyTop byte (frame.stacked (Element.ofBool success :: frame.stack.elements)) = .ok () last) :
    success = true ∧ frame = last := by
  rw [verifyTop_of_cons byte (Frame.elements_stacked _ _), Frame.stacked_stacked,
    Frame.stacked_of_elements rfl] at h
  cases success with
  | false => cases h
  | true =>
    cases h
    exact ⟨rfl, rfl⟩

/-- An outcome stays on the stack if it is not true. -/
theorem verifyTop_ofBool_eq_error {byte : UInt8} {success : Bool} {e : EvalError} {last : Frame}
    (h : verifyTop byte (frame.stacked (Element.ofBool success :: frame.stack.elements)) =
      .error e last) :
    success = false ∧ last = frame.stacked ([] :: frame.stack.elements) := by
  cases success with
  | true => cases h
  | false =>
    cases h
    exact ⟨rfl, rfl⟩

end Action

open CoinScript.Action in
/-- An opcode that verifies does what its base opcode does with `OP_VERIFY` after it. If the base opcode fails,
it fails in the same way and leaves the same. If the base opcode succeeds and then `OP_VERIFY`, it succeeds
and leaves the same. If only `OP_VERIFY` fails, it fails with its own byte, for which there is a result code,
and leaves the same without the outcome. That the stack holds no more than it can is true of every stack that
operations have led to. -/
theorem verifying_opcodes {env : Env} {frame : Frame} {op verifying : Opcode} {code : ResultCode}
    (hop : op.verifying? = some (verifying, code))
    (hroom : frame.stack.length ≤ frame.stack.capacity) :
    ∃ base verifies top : Handler,
      OpcodeTable.standard.handler? op.byte = some base ∧
      OpcodeTable.standard.handler? verifying.byte = some verifies ∧
      OpcodeTable.standard.handler? Opcode.opVerify.byte = some top ∧
      (∀ e last, base.run env op.byte frame = .error e last →
        verifies.run env verifying.byte frame = .error e last) ∧
      (∀ next last, base.run env op.byte frame = .ok () next →
        top.run env Opcode.opVerify.byte next = .ok () last →
        verifies.run env verifying.byte frame = .ok () last) ∧
      (∀ next e last, base.run env op.byte frame = .ok () next →
        top.run env Opcode.opVerify.byte next = .error e last →
        ∃ rest, last.stack.elements = [] :: rest ∧
          verifies.run env verifying.byte frame = .error (.verify verifying.byte) (last.stacked rest)) ∧
      (EvalError.verify verifying.byte).code = code := by
  obtain ⟨handler, check, hbase, hverifies, hcheck, hrun⟩ := run_eq_concludeCheck env hop
  have hcode : op ≠ verifying ∧ (EvalError.verify verifying.byte).code = code := by
    cases op <;> cases hop <;> decide
  have hleft : handler.run env op.byte frame = (check >>= pushBool) frame := by
    have hsame := hrun op (by simp)
    rw [concludeCheck_of_ne hcode.1] at hsame
    exact congrFun hsame frame
  have hverified : handler.run env verifying.byte frame =
      (check >>= Action.verify verifying.byte) frame := by
    have hsame := hrun verifying (by simp)
    rw [concludeCheck_self] at hsame
    exact congrFun hsame frame
  have htop : OpcodeTable.standard.handler? Opcode.opVerify.byte = some .verifyTop := rfl
  -- Only the first part needs room on the stack: with no room the outcome could not be left.
  refine ⟨handler, handler, .verifyTop, hbase, hverifies, htop, ?_, ?_, ?_, hcode.2⟩
  · intro e last h
    exact hverified.trans (verify_of_pushBool_error hcheck hroom (hleft.symm.trans h))
  · intro next last h hverify
    obtain ⟨success, middle, hrun, rfl⟩ := pushBool_eq_ok (hleft.symm.trans h)
    obtain ⟨rfl, rfl⟩ := verifyTop_ofBool_eq_ok hverify
    exact hverified.trans (bind_of_ok hrun)
  · intro next e last h hverify
    obtain ⟨success, middle, hrun, rfl⟩ := pushBool_eq_ok (hleft.symm.trans h)
    obtain ⟨rfl, rfl⟩ := verifyTop_ofBool_eq_error hverify
    refine ⟨middle.stack.elements, Frame.elements_stacked _ _, ?_⟩
    rw [Frame.stacked_stacked, Frame.stacked_of_elements rfl]
    exact hverified.trans (bind_of_ok hrun)

/-- A signature that is not accepted, on a stack that is full. -/
theorem verifying_opcodes_full_stack :
    let env : Env :=
      { flags := { nullDummy := true, minimalData := true }
        checker := ⟨fun sig key _ => sig = key, fun _ => false⟩
        sighash := sha256 [] }
    let frame : Frame := { stack := .ofList [[1], [3], [1], [2], []] 5, altStack := .new 5 }
    ∃ base verifies : Handler,
      OpcodeTable.standard.handler? Opcode.opCheckMultiSig.byte = some base ∧
      OpcodeTable.standard.handler? Opcode.opCheckMultiSigVerify.byte = some verifies ∧
      base.run env Opcode.opCheckMultiSig.byte frame =
        .ok ()
          { stack := .ofList [[]] 5
            altStack := .new 5
            opCount := 1
            asked := [.signature [2] [3] (sha256 [])] } ∧
      verifies.run env Opcode.opCheckMultiSigVerify.byte frame =
        .error (.verify Opcode.opCheckMultiSigVerify.byte)
          { stack := .ofList [] 5
            altStack := .new 5
            opCount := 1
            asked := [.signature [2] [3] (sha256 [])] } := by
  intro env frame
  obtain ⟨base, verifies, top, hbase, hverifies, htop, -, -, hfails, -⟩ :=
    @verifying_opcodes env frame .opCheckMultiSig .opCheckMultiSigVerify .checkMultisigVerify rfl
      (by decide)
  cases hbase
  cases htop
  obtain ⟨rest, hrest, hrun⟩ := hfails _ _ _ rfl rfl
  cases hrest
  exact ⟨_, verifies, rfl, hverifies, rfl, hrun⟩

end CoinScript
