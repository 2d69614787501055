import CoinScript.Proofs.NumberWords
import CoinScript.Proofs.Success

/-!
# Truth values

Elements are read as truth values in two ways: by the opcodes that branch and verify, and by the check at the
end of an evaluation. Neither goes through numbers. The main result says that an element is true for the
opcodes exactly if it is not zero as a number, that the check at the end differs only on zeros of two or
more bytes, and that opcodes leave none of these. So `OP_IF`, `OP_VERIFY` and the check at the end agree on
what an opcode leaves as a number or as the outcome of a check.
-/

namespace CoinScript

namespace Element

variable {element : Bytes}

/-! ## Readings of elements -/

theorem isTrue_singleton : ∀ last : UInt8, isTrue [last] = decide ((last &&& 0x7f).toNat ≠ 0) :=
  forall_byte (by decide +kernel)

/-- A byte that is not the last one makes an element true unless it is zero. -/
theorem isTrue_cons (byte : UInt8) {rest : Bytes} (h : rest ≠ []) :
    isTrue (byte :: rest) = (byte != 0 || isTrue rest) := by
  cases rest with
  | nil => exact absurd rfl h
  | cons next rest => rfl

/-- The opcodes read an element as true if some bit of its magnitude is set. -/
theorem isTrue_eq (element : Bytes) : isTrue element = decide (ScriptNum.magnitude element ≠ 0) := by
  rw [ScriptNum.magnitude_eq]
  fun_induction ScriptNum.signMagnitude element with
  | case1 => rfl
  | case2 last => exact isTrue_singleton last
  | case3 byte rest hne negative magnitude hrest ih =>
    have hzero : byte = 0 ↔ byte.toNat = 0 := UInt8.toNat_inj.symm
    rw [hrest] at ih
    rw [isTrue_cons byte hne, ih, Bool.eq_iff_iff, Bool.or_eq_true, bne_iff_ne, Ne, hzero,
      decide_eq_true_iff, decide_eq_true_iff]
    simp only
    omega

/-- Of two or more bytes, the check at the end accepts all. -/
theorem isSuccess_of_length (h : 2 ≤ element.length) : isSuccess element := by
  match element, h with
  | _ :: _ :: _, _ => simp [isSuccess]

theorem isSuccess_singleton : ∀ byte : UInt8, isSuccess [byte] = isTrue [byte] :=
  forall_byte (by decide +kernel)

/-- Up to one byte, the check at the end reads elements like the opcodes. -/
theorem isSuccess_eq_isTrue (h : element.length < 2) : isSuccess element = isTrue element := by
  match element, h with
  | [], _ => rfl
  | [byte], _ => exact isSuccess_singleton byte

/-- Whether an element is a zero of two or more bytes. -/
def IsLongZero (element : Bytes) : Prop := 2 ≤ element.length ∧ ScriptNum.magnitude element = 0

theorem isTrue_of_isLongZero (h : IsLongZero element) : isTrue element = false := by
  rw [isTrue_eq, decide_eq_false_iff_not, not_not]
  exact h.2

/-- The two readings agree except on long zeros. -/
theorem isSuccess_of_not_isLongZero (h : ¬IsLongZero element) : isSuccess element = isTrue element := by
  by_cases hlength : 2 ≤ element.length
  · have htrue : isTrue element = true := by
      rw [isTrue_eq, decide_eq_true_iff]
      exact fun hzero => h ⟨hlength, hzero⟩
    rw [htrue, isSuccess_of_length hlength]
  · exact isSuccess_eq_isTrue (Nat.lt_of_not_le hlength)

theorem isSuccess_eq_isTrue_iff : isSuccess element = isTrue element ↔ ¬IsLongZero element := by
  refine ⟨fun hsame hzero => ?_, isSuccess_of_not_isLongZero⟩
  rw [isSuccess_of_length hzero.1, isTrue_of_isLongZero hzero] at hsame
  cases hsame

/-! ## Readings of what opcodes leave -/

/-- The opcodes read a number that has been written as true unless it is zero. -/
theorem isTrue_encode (n : Int) : isTrue (ScriptNum.encode n) = decide (n ≠ 0) := by
  rw [isTrue_eq, ← ScriptNum.natAbs_value_eq, ScriptNum.value_encode, decide_eq_decide,
    Int.natAbs_ne_zero]

/-- Zero is written without bytes, so no zero that is written is padded. -/
theorem isSuccess_encode (n : Int) : isSuccess (ScriptNum.encode n) = decide (n ≠ 0) := by
  rw [← isTrue_encode]
  refine isSuccess_of_not_isLongZero fun ⟨hlength, hzero⟩ => ?_
  rw [← ScriptNum.natAbs_value_eq, ScriptNum.value_encode, Int.natAbs_eq_zero] at hzero
  rw [hzero] at hlength
  exact absurd hlength (by decide)

end Element

/-! ## What becomes of the top of the stack -/

namespace Action

/-- An action that leaves a number or the outcome of a check, and the truth value of what it leaves. -/
inductive LeavesTruth : Action Unit → Bool → Prop where
  | num (n : Int) : LeavesTruth (pushNum n) (n ≠ 0)
  | bool (success : Bool) : LeavesTruth (pushBool success) success

/-- Such an action pushes an element that both readings take for this truth value. -/
theorem LeavesTruth.element {x : Action Unit} {truth : Bool} (h : LeavesTruth x truth) :
    ∃ element, x = push element ∧ Element.isTrue element = truth ∧
      Element.isSuccess element = truth := by
  cases h with
  | num n => exact ⟨_, rfl, Element.isTrue_encode n, Element.isSuccess_encode n⟩
  | bool => exact ⟨_, rfl, by cases truth <;> decide⟩

end Action

namespace Machine

variable {config : Config} {m : Machine} {top : Bytes} {rest : List Bytes}

/-- Where `OP_VERIFY` has its handler, it takes the top off the stack if that is true. -/
theorem dispatch_verify_of_cons
    (hhandler : config.table.handler? Opcode.opVerify.byte = some .verifyTop) (hexec : m.isExecuting)
    (h : m.frame.stack.elements = top :: rest) :
    dispatch config Opcode.opVerify.byte m =
      if Element.isTrue top then .ok () { m with frame := m.frame.stacked rest }
      else .error (.verify Opcode.opVerify.byte) m := by
  have hexecuted : dispatch config Opcode.opVerify.byte = execute config Opcode.opVerify.byte := rfl
  have hrun : Handler.run config.toEnv Opcode.opVerify.byte .verifyTop m.frame = _ :=
    Action.verifyTop_of_cons Opcode.opVerify.byte h
  rw [hexecuted, execute_eq, if_pos hexec, hhandler]
  simp only [act, Handler.executable_run, hrun]
  cases Element.isTrue top <;> rfl

theorem openBranch_of_cons (expected : Bool) (hexec : m.isExecuting)
    (h : m.frame.stack.elements = top :: rest) :
    openBranch expected m = .ok () { m with
      frame := m.frame.stacked rest
      branches := m.branches.enter (Element.isTrue top == expected) } := by
  simp only [openBranch, if_pos hexec, Stack.pop_of_cons h, Frame.stacked]

/-- The top of the stack is taken for this truth value, be it by opcodes or by the check at the end. Where an
opcode takes it off, it leaves the machine `below`. -/
structure TakesTopFor (config : Config) (m : Machine) (truth : Bool) (below : Machine) : Prop where
  verified : config.table.handler? Opcode.opVerify.byte = some .verifyTop →
    dispatch config Opcode.opVerify.byte m =
      if truth then .ok () below else .error (.verify Opcode.opVerify.byte) m
  opened : dispatch config Opcode.opIf.byte m = .ok () { below with branches := m.branches.enter truth }
  openedNot : dispatch config Opcode.opNotIf.byte m =
    .ok () { below with branches := m.branches.enter !truth }
  finished : m.branches.isEmpty → finish m = if truth then .ok () m else .error .evalFalse m

/-- An element that both readings take for the same truth value is taken for it wherever it is looked at. -/
theorem takesTopFor_pushed {element : Bytes} {truth : Bool} (hexec : m.isExecuting)
    (htrue : Element.isTrue element = truth) (hsuccess : Element.isSuccess element = truth) :
    TakesTopFor config (m.pushed element) truth m := by
  have hexec' : (m.pushed element).isExecuting := hexec
  have htop : (m.pushed element).frame.stack.elements = element :: m.frame.stack.elements :=
    Frame.elements_stacked m.frame _
  have hbelow : (m.pushed element).frame.stacked m.frame.stack.elements = m.frame :=
    (Frame.stacked_stacked _ _ _).trans (Frame.stacked_of_elements rfl)
  have hopened (expected : Bool) : openBranch expected (m.pushed element) =
      .ok () { m with branches := m.branches.enter (truth == expected) } := by
    rw [openBranch_of_cons expected hexec' htop, htrue, hbelow]
    rfl
  refine ⟨fun hhandler => ?_, ?_, ?_, fun hclosed => ?_⟩
  · rw [dispatch_verify_of_cons hhandler hexec' htop, htrue, hbelow]
    rfl
  · have hsame : (truth == true) = truth := by simp
    rw [← hsame]
    exact hopened true
  · have hother : (truth == false) = !truth := by simp
    rw [← hother]
    exact hopened false
  · rw [finish_of_cons hclosed htop, hsuccess]

end Machine

/-- The opcodes read an element as true exactly if its magnitude is not zero, so exactly if it is not zero as
a number. The check at the end reads it in the same way, unless it is a zero of two or more bytes: that is
a success, but not true. No number is written like this, so both readings take a number that has been
written as true exactly if it is not zero. What an opcode leaves as a number or as the outcome of a check
is taken for the same truth value by `OP_VERIFY`, `OP_IF`, `OP_NOTIF` and the check at the end. -/
theorem truth_values_agree :
    (∀ element : Bytes,
      (Element.isTrue element ↔ ScriptNum.magnitude element ≠ 0) ∧
      (Element.isTrue element ↔ ScriptNum.value element ≠ 0) ∧
      (Element.isSuccess element = Element.isTrue element ↔ ¬Element.IsLongZero element) ∧
      (Element.IsLongZero element →
        Element.isSuccess element = true ∧ Element.isTrue element = false)) ∧
    (∀ n : Int,
      (Element.isTrue (ScriptNum.encode n) ↔ n ≠ 0) ∧
      (Element.isSuccess (ScriptNum.encode n) ↔ n ≠ 0)) ∧
    ∀ (config : Config) (x : Action Unit) (truth : Bool) (m m' : Machine), x.LeavesTruth truth →
      m.isExecuting → Machine.act x m = .ok () m' → m'.TakesTopFor config truth m := by
  refine ⟨fun element => ?_, fun n => ?_, fun config x truth m m' hleaves hexec hrun => ?_⟩
  · have htrue : Element.isTrue element ↔ ScriptNum.magnitude element ≠ 0 := by
      rw [Element.isTrue_eq, decide_eq_true_iff]
    refine ⟨htrue, ?_, Element.isSuccess_eq_isTrue_iff, fun hzero => ?_⟩
    · rw [htrue, ← ScriptNum.natAbs_value_eq, Int.natAbs_ne_zero]
    · exact ⟨Element.isSuccess_of_length hzero.1, Element.isTrue_of_isLongZero hzero⟩
  · rw [Element.isTrue_encode, Element.isSuccess_encode, decide_eq_true_iff]
    exact ⟨Iff.rfl, Iff.rfl⟩
  · obtain ⟨element, rfl, htrue, hsuccess⟩ := hleaves.element
    rw [Machine.act_push_eq_ok hrun]
    exact Machine.takesTopFor_pushed hexec htrue hsuccess

/-- A negative zero with padding is a success, but not true. Zero as an opcode leaves it is neither. -/
theorem truth_values_agree_zeros :
    let config : Config := { sighash := sha256 [] }
    let m := Machine.initial {} [] .empty
    Element.isSuccess [0x00, 0x80] = true ∧ Element.isTrue [0x00, 0x80] = false ∧
      ∃ m', Machine.act (Action.pushNum 0) m = .ok () m' ∧
        Machine.dispatch config Opcode.opVerify.byte m' = .error (.verify Opcode.opVerify.byte) m' ∧
        Machine.dispatch config Opcode.opIf.byte m' =
          .ok () { m with branches := m'.branches.enter false } ∧
        Machine.finish m' = .error .evalFalse m' := by
  intro config m
  obtain ⟨helement, -, hmachine⟩ := truth_values_agree
  obtain ⟨-, -, -, hlong⟩ := helement [0x00, 0x80]
  obtain ⟨hsuccess, htrue⟩ := hlong ⟨by decide, by decide⟩
  have htop := hmachine config _ _ m (m.pushed []) (.num 0) rfl rfl
  exact ⟨hsuccess, htrue, _, rfl, htop.verified rfl, htop.opened, htop.finished rfl⟩

end CoinScript
