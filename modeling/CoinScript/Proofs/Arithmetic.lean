import CoinScript.Proofs.Numbers
import CoinScript.Proofs.Success
import Mathlib.Data.List.Forall2

/-!
# Exact arithmetic

The opcodes of arithmetic take one, two or three numbers off the stack, compute one from them, and leave it
there or check it. What they compute is said here once for numbers of any kind. Operands have at most four
bytes, so no result is near the bounds of a machine word: computed with words, which wrap around, the
results are those of exact integers. The main result covers all these opcodes and all stacks.
-/

namespace CoinScript

/-- Whether an element is read as an operand. -/
def Env.Reads (env : Env) (element : Bytes) (n : Int) : Prop :=
  ScriptNum.decode env.flags.minimalData ScriptNum.operandSize element = .ok n

instance (env : Env) (element : Bytes) (n : Int) : Decidable (env.Reads element n) :=
  inferInstanceAs (Decidable (_ = Except.ok n))

/-! ## What the opcodes compute -/

/-- How many numbers an opcode of arithmetic takes. -/
def Opcode.operandCount? : Opcode → Option Nat
  | .op1Add | .op1Sub | .opNegate | .opAbs | .opNot | .op0NotEqual => some 1
  | .opAdd | .opSub | .opBoolAnd | .opBoolOr | .opNumEqual | .opNumEqualVerify | .opNumNotEqual
  | .opLessThan | .opGreaterThan | .opLessThanOrEqual | .opGreaterThanOrEqual | .opMin
  | .opMax => some 2
  | .opWithin => some 3
  | _ => none

section

variable {α : Type} [OfNat α 0] [OfNat α 1] [Neg α] [Add α] [Sub α] [LT α] [LE α] [DecidableEq α]
  [DecidableLT α] [DecidableLE α]

/-- One for true and zero for false. -/
def truth (p : Prop) [Decidable p] : α := if p then 1 else 0

/-- What an opcode of arithmetic computes from its operands, in the order in which they were pushed. -/
def Opcode.compute? : Opcode → List α → Option α
  | .op1Add, [n] => some (n + 1)
  | .op1Sub, [n] => some (n - 1)
  | .opNegate, [n] => some (-n)
  | .opAbs, [n] => some (if n < 0 then -n else n)
  | .opNot, [n] => some (truth (n = 0))
  | .op0NotEqual, [n] => some (truth (n ≠ 0))
  | .opAdd, [a, b] => some (a + b)
  | .opSub, [a, b] => some (a - b)
  | .opBoolAnd, [a, b] => some (truth (a ≠ 0 ∧ b ≠ 0))
  | .opBoolOr, [a, b] => some (truth (a ≠ 0 ∨ b ≠ 0))
  | .opNumEqual, [a, b] => some (truth (a = b))
  | .opNumEqualVerify, [a, b] => some (truth (a = b))
  | .opNumNotEqual, [a, b] => some (truth (a ≠ b))
  | .opLessThan, [a, b] => some (truth (a < b))
  | .opGreaterThan, [a, b] => some (truth (b < a))
  | .opLessThanOrEqual, [a, b] => some (truth (a ≤ b))
  | .opGreaterThanOrEqual, [a, b] => some (truth (b ≤ a))
  | .opMin, [a, b] => some (if a ≤ b then a else b)
  | .opMax, [a, b] => some (if a ≤ b then b else a)
  | .opWithin, [x, low, high] => some (truth (low ≤ x ∧ x < high))
  | _, _ => none

end

/-! ## Exact results on machine words -/

/-- Whether an integer is in the range of operands. -/
def IsOperand (n : Int) : Prop := n.natAbs < 2 ^ 31

namespace IsOperand

variable {a b : Int}

/-- The word for an operand stands for it. -/
theorem toInt_ofInt (h : IsOperand a) : (Int64.ofInt a).toInt = a := by
  unfold IsOperand at h
  exact Int64.toInt_ofInt_of_le (by omega) (by omega)

theorem ofInt_eq_iff (ha : IsOperand a) (hb : IsOperand b) :
    Int64.ofInt a = Int64.ofInt b ↔ a = b := by
  rw [← Int64.toInt_inj, ha.toInt_ofInt, hb.toInt_ofInt]

theorem ofInt_eq_zero_iff (ha : IsOperand a) : Int64.ofInt a = 0 ↔ a = 0 := by
  rw [← Int64.toInt_inj, ha.toInt_ofInt]
  rfl

theorem ofInt_lt_iff (ha : IsOperand a) (hb : IsOperand b) :
    Int64.ofInt a < Int64.ofInt b ↔ a < b := by
  rw [Int64.lt_iff_toInt_lt, ha.toInt_ofInt, hb.toInt_ofInt]

theorem ofInt_le_iff (ha : IsOperand a) (hb : IsOperand b) :
    Int64.ofInt a ≤ Int64.ofInt b ↔ a ≤ b := by
  rw [Int64.le_iff_toInt_le, ha.toInt_ofInt, hb.toInt_ofInt]

theorem ofInt_neg_iff (ha : IsOperand a) : Int64.ofInt a < 0 ↔ a < 0 := by
  rw [Int64.lt_iff_toInt_lt, ha.toInt_ofInt]
  rfl

end IsOperand

/-- What is read is small, because operands have few bytes. -/
theorem isOperand_of_reads {env : Env} {operands : List Bytes} {numbers : List Int}
    (h : List.Forall₂ env.Reads operands numbers) : ∀ n ∈ numbers, IsOperand n := by
  induction h with
  | nil => exact fun n hn => absurd hn List.not_mem_nil
  | cons hfirst _ ih => exact List.forall_mem_cons.2 ⟨ScriptNum.natAbs_of_decode hfirst, ih⟩

/-- A result that is far from the bounds of words is left as it is where words wrap around. -/
theorem bmod_of_small {n : Int} (h : n.natAbs ≤ 2 ^ 32 - 2) : n.bmod (2 ^ 64) = n := by
  apply Int.bmod_eq_of_le <;> omega

theorem truth_ne_zero_iff {p : Prop} [Decidable p] : (truth p : Int) ≠ 0 ↔ p := by
  unfold truth
  split <;> simp_all

theorem toInt_truth {p q : Prop} [Decidable p] [Decidable q] (h : q ↔ p) :
    (truth q : Int64).toInt = truth p := by
  unfold truth
  by_cases hp : p
  · rw [if_pos hp, if_pos (h.2 hp)]
    rfl
  · rw [if_neg hp, if_neg (mt h.1 hp)]
    rfl

namespace Opcode

variable {op : Opcode} {numbers : List Int} {a b c : Int}

/-- The result for some operands exists, it is far from the bounds of words, and it is computed with words
just as well. -/
def IsExact (op : Opcode) (numbers : List Int) : Prop :=
  ∃ result : Int, op.compute? numbers = some result ∧ result.natAbs ≤ 2 ^ 32 - 2 ∧
    (op.compute? (numbers.map Int64.ofInt)).map Int64.toInt = some result

theorem isExact_of_eq {result : Int} {word : Int64} (hresult : op.compute? numbers = some result)
    (hword : op.compute? (numbers.map Int64.ofInt) = some word) (hsmall : result.natAbs ≤ 2 ^ 32 - 2)
    (hsame : word.toInt = result) : op.IsExact numbers := by
  refine ⟨result, hresult, hsmall, ?_⟩
  rw [hword, Option.map_some, hsame]

theorem isExact_of_truth {p q : Prop} [Decidable p] [Decidable q]
    (hresult : op.compute? numbers = some (truth p))
    (hword : op.compute? (numbers.map Int64.ofInt) = some (truth q)) (hsame : q ↔ p) :
    op.IsExact numbers :=
  isExact_of_eq hresult hword (Nat.le_trans (Action.natAbs_ofCondition p) (by decide)) (toInt_truth hsame)

theorem isExact_unary (hop : op.operandCount? = some 1) (ha : IsOperand a) : op.IsExact [a] := by
  have hword := ha.toInt_ofInt
  have hone : (1 : Int64).toInt = 1 := rfl
  have hsmall : a.natAbs < 2 ^ 31 := ha
  cases op with
  | op1Add =>
    refine isExact_of_eq rfl rfl (by omega) ?_
    rw [Int64.toInt_add, hword, hone, bmod_of_small (by omega)]
  | op1Sub =>
    refine isExact_of_eq rfl rfl (by omega) ?_
    rw [Int64.toInt_sub, hword, hone, bmod_of_small (by omega)]
  | opNegate =>
    refine isExact_of_eq rfl rfl (by omega) ?_
    rw [Int64.toInt_neg, hword, bmod_of_small (by omega)]
  | opAbs =>
    refine isExact_of_eq rfl rfl (by split <;> omega) ?_
    simp only [ha.ofInt_neg_iff]
    split
    · rw [Int64.toInt_neg, hword, bmod_of_small (by omega)]
    · exact hword
  | opNot => exact isExact_of_truth rfl rfl ha.ofInt_eq_zero_iff
  | op0NotEqual => exact isExact_of_truth rfl rfl (not_congr ha.ofInt_eq_zero_iff)
  | _ => cases hop

theorem isExact_binary (hop : op.operandCount? = some 2) (ha : IsOperand a) (hb : IsOperand b) :
    op.IsExact [a, b] := by
  -- Only sums and differences leave the range of operands; everything else carries over by comparisons.
  have hfirst := ha.toInt_ofInt
  have hsecond := hb.toInt_ofInt
  have hsmall : a.natAbs < 2 ^ 31 := ha
  have hsmall' : b.natAbs < 2 ^ 31 := hb
  have hzero := not_congr ha.ofInt_eq_zero_iff
  have hzero' := not_congr hb.ofInt_eq_zero_iff
  cases op with
  | opAdd =>
    refine isExact_of_eq rfl rfl (by omega) ?_
    rw [Int64.toInt_add, hfirst, hsecond, bmod_of_small (by omega)]
  | opSub =>
    refine isExact_of_eq rfl rfl (by omega) ?_
    rw [Int64.toInt_sub, hfirst, hsecond, bmod_of_small (by omega)]
  | opBoolAnd => exact isExact_of_truth rfl rfl (and_congr hzero hzero')
  | opBoolOr => exact isExact_of_truth rfl rfl (or_congr hzero hzero')
  | opNumEqual => exact isExact_of_truth rfl rfl (ha.ofInt_eq_iff hb)
  | opNumEqualVerify => exact isExact_of_truth rfl rfl (ha.ofInt_eq_iff hb)
  | opNumNotEqual => exact isExact_of_truth rfl rfl (not_congr (ha.ofInt_eq_iff hb))
  | opLessThan => exact isExact_of_truth rfl rfl (ha.ofInt_lt_iff hb)
  | opGreaterThan => exact isExact_of_truth rfl rfl (hb.ofInt_lt_iff ha)
  | opLessThanOrEqual => exact isExact_of_truth rfl rfl (ha.ofInt_le_iff hb)
  | opGreaterThanOrEqual => exact isExact_of_truth rfl rfl (hb.ofInt_le_iff ha)
  | opMin =>
    refine isExact_of_eq rfl rfl (by split <;> omega) ?_
    simp only [ha.ofInt_le_iff hb]
    split
    · exact hfirst
    · exact hsecond
  | opMax =>
    refine isExact_of_eq rfl rfl (by split <;> omega) ?_
    simp only [ha.ofInt_le_iff hb]
    split
    · exact hsecond
    · exact hfirst
  | _ => cases hop

theorem isExact_ternary (hop : op.operandCount? = some 3) (ha : IsOperand a) (hb : IsOperand b)
    (hc : IsOperand c) : op.IsExact [a, b, c] := by
  cases op with
  | opWithin => exact isExact_of_truth rfl rfl (and_congr (hb.ofInt_le_iff ha) (ha.ofInt_lt_iff hc))
  | _ => cases hop

/-- Every opcode of arithmetic is exact on as many operands as it takes. -/
theorem isExact_of_operands (hop : op.operandCount? = some numbers.length)
    (hnumbers : ∀ n ∈ numbers, IsOperand n) : op.IsExact numbers := by
  match numbers, hop, hnumbers with
  | [], hop, _ => cases op <;> cases hop
  | [a], hop, h => exact isExact_unary hop (h a (by simp))
  | [a, b], hop, h => exact isExact_binary hop (h a (by simp)) (h b (by simp))
  | [a, b, c], hop, h => exact isExact_ternary hop (h a (by simp)) (h b (by simp)) (h c (by simp))
  | _ :: _ :: _ :: _ :: _, hop, _ => cases op <;> cases hop

/-- What `OP_NUMEQUALVERIFY` checks. -/
theorem compute?_opNumEqualVerify {result : Int}
    (h : opNumEqualVerify.compute? numbers = some result) :
    result ≠ 0 ↔ ∃ n, numbers = [n, n] := by
  match numbers, h with
  | [a, b], h =>
    obtain rfl : truth (a = b) = result := Option.some.inj h
    rw [truth_ne_zero_iff]
    constructor
    · rintro rfl
      exact ⟨a, rfl⟩
    · rintro ⟨n, hn⟩
      cases hn
      rfl

end Opcode

/-! ## Handlers -/

namespace Action

/-- Takes numbers off the stack, the topmost first. -/
def popNums (env : Env) : Nat → Action (List Int)
  | 0 => pure []
  | count + 1 => do
    let first ← popNum env
    let rest ← popNums env count
    return first :: rest

/-- If several operands are needed, they have to be there before one is taken. -/
def demand (count : Nat) : Action Unit := if count = 1 then pure () else require count

/-- Leaves the result on the stack, or checks that it is not zero. -/
def concludeNum (op : Opcode) (numbers : List Int) : Action Unit :=
  match op.compute? numbers with
  | some result => if op = .opNumEqualVerify then verify op.byte (result ≠ 0) else pushNum result
  | none => throw (.unknownOpcode op.byte)

/-- Takes the operands of an opcode of arithmetic, computes the result and leaves it or checks it. -/
def calculate (env : Env) (op : Opcode) (count : Nat) : Action Unit := do
  demand count
  let numbers ← popNums env count
  concludeNum op numbers.reverse

variable {env : Env} {op : Opcode} {count : Nat}

theorem compute?_singleton (n : Int) : op.compute? [n] = unaryResult? n op := by
  cases op with
  | opAbs =>
    have habs : (if n < 0 then -n else n) = (n.natAbs : Int) := by omega
    exact congrArg some habs
  | _ => rfl

theorem compute?_pair (a b : Int) : op.compute? [a, b] = binaryResult? a b op := by
  cases op <;> rfl

theorem calculate_one : calculate env op 1 = (do concludeNum op [← popNum env]) := by
  simp only [calculate, demand, popNums, if_true, pure_bind, bind_assoc, List.reverse_singleton]

theorem unaryNum_eq_calculate (hop : op.operandCount? = some 1) :
    unaryNum env op.byte = calculate env op 1 := by
  have hverify : op ≠ .opNumEqualVerify := by
    rintro rfl
    cases hop
  rw [calculate_one]
  refine bind_congr fun n => ?_
  rw [Opcode.ofByte?_byte, Option.bind_some, ← compute?_singleton, concludeNum]
  cases op.compute? [n] with
  | some result => exact (if_neg hverify).symm
  | none => rfl

theorem calculate_two : calculate env op 2 = (do
    require 2
    let b ← popNum env
    let a ← popNum env
    concludeNum op [a, b]) := by
  simp only [calculate, demand, popNums, pure_bind, bind_assoc, List.reverse_cons, List.reverse_nil,
    List.nil_append, List.cons_append]
  rfl

theorem binaryNum_eq_calculate : binaryNum env op.byte = calculate env op 2 := by
  rw [calculate_two]
  refine bind_congr fun _ => bind_congr fun b => bind_congr fun a => ?_
  rw [Opcode.ofByte?_byte, Option.bind_some, ← compute?_pair, concludeNum]
  cases op.compute? [a, b] with
  | some result => exact if_congr Opcode.byte_inj rfl rfl
  | none => rfl

/-- One and zero are written as the truth values are. -/
theorem encode_truth (p : Prop) [Decidable p] : ScriptNum.encode (truth p) = Element.ofBool p := by
  unfold truth
  by_cases hp : p
  · rw [if_pos hp, decide_eq_true hp]
    exact ScriptNum.encode_of_decode (show ScriptNum.decode true 1 [0x01] = .ok 1 from rfl)
  · rw [if_neg hp, decide_eq_false hp]
    rfl

theorem within_eq_calculate : within env = calculate env .opWithin 3 := by
  have htaken : calculate env .opWithin 3 = (do
      require 3
      let high ← popNum env
      let low ← popNum env
      let x ← popNum env
      concludeNum .opWithin [x, low, high]) := by
    simp only [calculate, demand, popNums, pure_bind, bind_assoc, List.reverse_cons,
      List.reverse_nil, List.nil_append, List.cons_append]
    rfl
  rw [htaken]
  refine bind_congr fun _ => bind_congr fun high => bind_congr fun low => bind_congr fun x => ?_
  exact congrArg push (encode_truth (low ≤ x ∧ x < high)).symm

/-- Every opcode of arithmetic has a handler, which does what is said for its number of operands. -/
theorem run_eq_calculate (env : Env) (hop : op.operandCount? = some count) :
    ∃ handler, OpcodeTable.standard.handler? op.byte = some handler ∧
      handler.run env op.byte = calculate env op count := by
  have hhandler : op.handler? = some .unaryNum ∧ count = 1 ∨
      op.handler? = some .binaryNum ∧ count = 2 ∨ op = .opWithin ∧ count = 3 := by
    cases op <;> cases hop <;> decide
  rw [OpcodeTable.standard_byte]
  rcases hhandler with ⟨hhandler, rfl⟩ | ⟨hhandler, rfl⟩ | ⟨rfl, rfl⟩
  · exact ⟨_, hhandler, unaryNum_eq_calculate hop⟩
  · exact ⟨_, hhandler, binaryNum_eq_calculate⟩
  · exact ⟨_, rfl, within_eq_calculate⟩

/-! ## Runs -/

variable {frame : Frame} {operands rest : List Bytes} {numbers : List Int}

theorem demand_of_le (h : count ≤ frame.stack.length) : demand count frame = .ok () frame := by
  unfold demand
  split
  · rfl
  · exact require_of_le h

theorem popNums_of_append (h : frame.stack.elements = operands ++ rest)
    (hread : List.Forall₂ env.Reads operands numbers) :
    popNums env operands.length frame = .ok numbers (frame.stacked rest) := by
  induction hread generalizing frame with
  | nil =>
    rw [Frame.stacked_of_elements (show frame.stack.elements = rest from h)]
    rfl
  | @cons first n operands numbers hfirst _ ih =>
    have hothers : popNums env operands.length (frame.stacked (operands ++ rest)) =
        .ok numbers (frame.stacked rest) := by
      rw [ih (Frame.elements_stacked _ _), Frame.stacked_stacked]
    rw [List.length_cons, popNums, bind_of_ok (popNum_of_cons h hfirst)]
    exact bind_of_ok hothers

/-- The first operand that is not a number is the last that is taken. -/
theorem popNums_of_error {bad : Bytes} {e : ScriptNum.Error}
    (h : frame.stack.elements = operands ++ bad :: rest)
    (hread : List.Forall₂ env.Reads operands numbers) (hcount : operands.length < count)
    (hbad : ScriptNum.decode env.flags.minimalData ScriptNum.operandSize bad = .error e) :
    popNums env count frame = .error (.num e) (frame.stacked rest) := by
  obtain ⟨count, rfl⟩ := Nat.exists_eq_add_of_le' (Nat.zero_lt_of_lt hcount)
  -- Each operand that is read takes one off the count, which stays positive for the one that is not.
  induction hread generalizing frame count with
  | nil => exact bind_of_error (popNum_of_error h hbad)
  | @cons first n operands numbers hfirst _ ih =>
    obtain ⟨count, rfl⟩ := Nat.exists_eq_add_of_le' (Nat.zero_lt_of_lt (Nat.lt_of_succ_lt_succ hcount))
    have hothers : popNums env (count + 1) (frame.stacked (operands ++ bad :: rest)) =
        .error (.num e) (frame.stacked rest) := by
      rw [ih (Frame.elements_stacked _ _) count (Nat.lt_of_succ_lt_succ hcount),
        Frame.stacked_stacked]
    rw [popNums, bind_of_ok (popNum_of_cons h hfirst)]
    exact bind_of_error hothers

/-- What is too few for an opcode is left where it is. -/
theorem calculate_of_lt (h : frame.stack.length < count) :
    calculate env op count frame = .error (.invalidStackOperation
      (if count = 1 then .empty else .notFound count frame.stack.length)) frame := by
  by_cases hone : count = 1
  · subst hone
    simp only [calculate, demand, popNums, popNum, if_true, pure_bind, bind_assoc]
    exact bind_of_error (pop_of_lt h)
  · simp only [calculate, demand, if_neg hone]
    exact bind_of_error (require_of_lt h)

theorem concludeNum_of_result {result : Int} (hresult : op.compute? numbers = some result)
    (hroom : rest.length < frame.stack.capacity) :
    concludeNum op numbers (frame.stacked rest) =
      if op = .opNumEqualVerify then
        if result ≠ 0 then .ok () (frame.stacked rest)
        else .error (.verify op.byte) (frame.stacked rest)
      else .ok () (frame.stacked (ScriptNum.encode result :: rest)) := by
  unfold concludeNum
  rw [hresult]
  by_cases hverify : op = .opNumEqualVerify
  · rw [if_pos hverify]
    simp only [if_pos hverify, verify, decide_eq_true_eq]
    split
    · rfl
    · rfl
  · rw [if_neg hverify]
    simp only [if_neg hverify]
    exact push_stacked hroom

/-- The operands leave room for the result. -/
theorem calculate_of_reads {result : Int} (hop : op.operandCount? = some operands.length)
    (hroom : frame.stack.length ≤ frame.stack.capacity)
    (hstack : frame.stack.elements = operands.reverse ++ rest)
    (hread : List.Forall₂ env.Reads operands numbers) (hresult : op.compute? numbers = some result) :
    calculate env op operands.length frame =
      if op = .opNumEqualVerify then
        if result ≠ 0 then .ok () (frame.stacked rest)
        else .error (.verify op.byte) (frame.stacked rest)
      else .ok () (frame.stacked (ScriptNum.encode result :: rest)) := by
  have hpos : operands.length ≠ 0 := by
    intro hzero
    rw [hzero] at hop
    cases op <;> cases hop
  have hlength : frame.stack.length = operands.length + rest.length := by
    rw [frame.stack.length_eq, hstack, List.length_append, List.length_reverse]
  have htaken : popNums env operands.length frame = .ok numbers.reverse (frame.stacked rest) := by
    rw [← operands.length_reverse]
    exact popNums_of_append hstack (List.rel_reverse hread)
  rw [calculate, bind_of_ok (demand_of_le (by omega)), bind_of_ok htaken, List.reverse_reverse]
  exact concludeNum_of_result hresult (by omega)

theorem calculate_of_error {bad : Bytes} {e : ScriptNum.Error}
    (hstack : frame.stack.elements = operands ++ bad :: rest)
    (hread : List.Forall₂ env.Reads operands numbers) (hshort : operands.length < count)
    (hcount : count ≤ frame.stack.length)
    (hbad : ScriptNum.decode env.flags.minimalData ScriptNum.operandSize bad = .error e) :
    calculate env op count frame = .error (.num e) (frame.stacked rest) := by
  rw [calculate, bind_of_ok (demand_of_le hcount)]
  exact bind_of_error (popNums_of_error hstack hread hshort hbad)

end Action

/-- The opcodes of arithmetic are exact. With too few operands an opcode fails and leaves them where they are.
If all operands are read as numbers, they are replaced by the number that is computed from them;
`OP_NUMEQUALVERIFY` leaves nothing and fails unless its operands are equal. No number on the way is near the
bounds of machine words, so computing with these gives the same, and the result takes five bytes at most,
from which it is read back. Otherwise the first operand from the top that is not read is the failure. That
the stack holds no more than it can is true of every stack that operations have led to. -/
theorem arithmetic_exact {env : Env} {frame : Frame} {op : Opcode} {count : Nat}
    (hop : op.operandCount? = some count) (hroom : frame.stack.length ≤ frame.stack.capacity) :
    ∃ handler, OpcodeTable.standard.handler? op.byte = some handler ∧
      (frame.stack.length < count → handler.run env op.byte frame =
        .error (.invalidStackOperation
          (if count = 1 then .empty else .notFound count frame.stack.length)) frame) ∧
      (∀ operands numbers rest, frame.stack.elements = operands.reverse ++ rest →
        operands.length = count → List.Forall₂ env.Reads operands numbers →
        ∃ result, op.compute? numbers = some result ∧
          (op = .opNumEqualVerify → (result ≠ 0 ↔ ∃ n, numbers = [n, n])) ∧
          (handler.run env op.byte frame =
            if op = .opNumEqualVerify then
              if result ≠ 0 then .ok () (frame.stacked rest)
              else .error (.verify op.byte) (frame.stacked rest)
            else .ok () (frame.stacked (ScriptNum.encode result :: rest))) ∧
          (∀ n ∈ result :: numbers, n.natAbs ≤ 2 ^ 32 - 2) ∧
          (op.compute? (numbers.map Int64.ofInt)).map Int64.toInt = some result ∧
          (ScriptNum.encode result).length ≤ 5 ∧
          ScriptNum.decode true 5 (ScriptNum.encode result) = .ok result) ∧
      ∀ operands numbers bad rest e, frame.stack.elements = operands ++ bad :: rest →
        operands.length < count → count ≤ frame.stack.length →
        List.Forall₂ env.Reads operands numbers →
        ScriptNum.decode env.flags.minimalData ScriptNum.operandSize bad = .error e →
        handler.run env op.byte frame = .error (.num e) (frame.stacked rest) := by
  obtain ⟨handler, hhandler, hsame⟩ := Action.run_eq_calculate env hop
  have hrun := congrFun hsame frame
  refine ⟨handler, hhandler, fun h => hrun.trans (Action.calculate_of_lt h), ?_, ?_⟩
  · rintro operands numbers rest hstack rfl hread
    have hnumbers := isOperand_of_reads hread
    obtain ⟨result, hresult, hsmall, hword⟩ := Opcode.isExact_of_operands (hread.length_eq ▸ hop) hnumbers
    have hbytes : (ScriptNum.encode result).length ≤ 5 := by
      rw [ScriptNum.length_encode_le_iff (by decide)]
      omega
    refine ⟨result, hresult, ?_, hrun.trans ?_, ?_, hword, hbytes, ?_⟩
    · rintro rfl
      exact Opcode.compute?_opNumEqualVerify hresult
    · exact Action.calculate_of_reads hop hroom hstack hread hresult
    · rw [List.forall_mem_cons]
      refine ⟨hsmall, fun n hn => ?_⟩
      have hrange : n.natAbs < 2 ^ 31 := hnumbers n hn
      omega
    · rw [ScriptNum.decode_encode]
      exact if_pos hbytes
  · intro operands numbers bad rest e hstack hshort hcount hread hbad
    exact hrun.trans (Action.calculate_of_error hstack hread hshort hcount hbad)

/-- The difference of the least operand and the greatest takes a byte more than they do. -/
theorem arithmetic_exact_least_difference :
    ∃ handler, OpcodeTable.standard.handler? Opcode.opSub.byte = some handler ∧
      handler.run { flags := { minimalData := true }, sighash := sha256 [] } Opcode.opSub.byte
        { stack := .ofList [[0xff, 0xff, 0xff, 0x7f], [0xff, 0xff, 0xff, 0xff], [7]] 3
          altStack := .new 3 } =
        .ok ()
          { stack := .ofList [[0xfe, 0xff, 0xff, 0xff, 0x80], [7]] 3
            altStack := .new 3 } ∧
      Opcode.opSub.compute? [-(2 ^ 31 - 1), 2 ^ 31 - 1] = some (-(2 ^ 32 - 2) : Int) ∧
      ScriptNum.decode true 5 [0xfe, 0xff, 0xff, 0xff, 0x80] = .ok (-(2 ^ 32 - 2)) := by
  let env : Env := { flags := { minimalData := true }, sighash := sha256 [] }
  let frame : Frame :=
    { stack := .ofList [[0xff, 0xff, 0xff, 0x7f], [0xff, 0xff, 0xff, 0xff], [7]] 3
      altStack := .new 3 }
  have hdifference : Opcode.opSub.compute? [-(2 ^ 31 - 1), 2 ^ 31 - 1] = some (-(2 ^ 32 - 2) : Int) := rfl
  obtain ⟨handler, hhandler, -, hread, -⟩ := @arithmetic_exact env frame .opSub 2 rfl (by decide)
  obtain ⟨result, hresult, -, hrun, -, -, -, hback⟩ :=
    hread [[0xff, 0xff, 0xff, 0xff], [0xff, 0xff, 0xff, 0x7f]] [-(2 ^ 31 - 1), 2 ^ 31 - 1] [[7]] rfl rfl
      (by decide)
  obtain rfl : -(2 ^ 32 - 2) = result := Option.some.inj (hdifference.symm.trans hresult)
  have hbytes : ScriptNum.encode (-(2 ^ 32 - 2)) = [0xfe, 0xff, 0xff, 0xff, 0x80] :=
    ScriptNum.encode_of_decode (show ScriptNum.decode true 5 _ = _ from rfl)
  rw [hbytes] at hrun hback
  exact ⟨handler, hhandler, hrun, hresult, hback⟩

end CoinScript
