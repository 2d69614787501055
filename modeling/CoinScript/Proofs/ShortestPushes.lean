import CoinScript.Proofs.Pushes
import CoinScript.Proofs.RoundTrip
import CoinScript.Shorthand

/-!
# Shortest pushes

There are two ways to write the push of an element: by hand in its shortest form, and as a script with
such a push is written. A third place decides whether a push is minimal when it is executed. The main
result says that they agree. The shortest form is read as one command, which puts just the element on the
stack where pushes have to be minimal. It is what is written for the push, unless the element is one of a
few small numbers; and these are the elements whose written push is then refused.
-/

namespace CoinScript

/-- Whether an element is one of the numbers that have an opcode, other than zero: 1 to 16, and -1. -/
def Element.isSmallNum : Bytes → Bool
  | [b] => (0x01 ≤ b && b ≤ 0x10) || b == 0x81
  | _ => false

theorem Element.needsPush_of_ne : ∀ {v : Bytes}, v ≠ [] →
    Element.needsPush v = !Element.isSmallNum v
  | [], h => absurd rfl h
  | [_], _ => (Bool.not_or _ _).symm
  | _ :: _ :: _, _ => rfl

section

variable {v : Bytes} {env : Env}

/-! ## Elements that are pushed as they are -/

/-- Both writers put the same header in front of data. -/
theorem Script.pushHeader_eq {size : Nat} (h : size ≤ Script.maxElementSize) :
    Script.pushHeader size = .ok (Shorthand.pushHeader size) := by
  simp only [Script.pushHeader, Script.maxDirectPush, Shorthand.pushHeader, h, if_true]
  split
  · rfl
  · split <;> rfl

/-- Unless there is an opcode for a number, the shortest push is what is written for the command. -/
theorem Shorthand.encodeCommand_eq_push (hsmall : Element.isSmallNum v = false)
    (hfits : v.length ≤ Script.maxElementSize) :
    Script.encodeCommand (.push v) = .ok (Shorthand.push v) := by
  rw [Script.encodeCommand, Script.pushHeader_eq hfits]
  rcases v with _ | ⟨b, _ | ⟨b', rest⟩⟩
  · rfl
  · simp only [Element.isSmallNum, Bool.or_eq_false_iff, Bool.and_eq_false_iff, decide_eq_false_iff_not,
      beq_eq_false_iff_ne] at hsmall
    have hrange : ¬(0x01 ≤ b ∧ b ≤ 0x10) := fun h => hsmall.1.elim (· h.1) (· h.2)
    rw [Shorthand.push, if_neg hrange, if_neg hsmall.2]
    rfl
  · rfl

theorem Command.isPush_canonical (v : Bytes) : (Command.push v).canonical.isPush := by
  cases v with
  | nil => rfl
  | cons b v => rfl

/-- What the push of an element is read back as pushes that element, unless the element is a small number:
then the push is not minimal. -/
theorem Command.pushed_canonical (hsize : v.length ≤ env.limits.maxElementSize)
    (hminimal : env.flags.minimalData = true) :
    (Command.push v).canonical.pushed env =
      if Element.isSmallNum v then .error .minimalData else .ok v := by
  by_cases hempty : v = []
  · rw [hempty]
    rfl
  · have hcommand : Command.push v ≠ .push [] := fun h => hempty (Command.push.inj h)
    rw [canonical_of_ne hcommand, pushed, if_neg (Nat.not_lt.2 hsize), hminimal,
      Element.needsPush_of_ne hempty, Bool.not_not, Bool.true_and]

/-! ## Small numbers -/

/-- The opcode that pushes a small number. -/
def Element.constantByte (b : UInt8) : UInt8 :=
  if b = 0x81 then Opcode.op1Negate.byte else Opcode.op1.byte + b - 1

theorem Element.constantByte_spec : ∀ b, Element.isSmallNum [b] →
    Shorthand.push [b] = [constantByte b] ∧ 0x4d < (constantByte b).toNat ∧
      (Command.opcode (constantByte b)).isPush ∧
      OpcodeTable.standard.handler? (constantByte b) = some .pushConstant ∧
      ScriptNum.encode (Action.constantOf (constantByte b)) = [b] :=
  forall_byte (by decide +kernel)

/-- A small number is pushed by its opcode, which takes one byte; the push of its byte takes two. -/
theorem Element.exists_of_isSmallNum (h : Element.isSmallNum v) :
    ∃ b byte, v = [b] ∧ Shorthand.push v = [byte] ∧ Script.IsWord (.opcode byte) [byte] ∧
      (Command.opcode byte).isPush ∧ ∀ env : Env, (Command.opcode byte).pushed env = .ok v := by
  match v, h with
  | [b], h =>
    obtain ⟨hpush, hbyte, hisPush, hhandler, hnumber⟩ := Element.constantByte_spec b h
    refine ⟨b, _, rfl, hpush, .opcode (.inr hbyte), hisPush, fun env => ?_⟩
    simp only [Command.pushed, hhandler, hnumber]

/-! ## Words -/

/-- A word is a body with one command. -/
theorem Script.decode_of_isWord {command : Command} {word : Bytes} (h : IsWord command word) :
    decode word = .ok [command] :=
  decode_eq_ok_iff.2 ⟨[word], .cons h .nil, List.append_nil word⟩

/-- The shortest push is a word, for a command that pushes the element in any case. -/
theorem Shorthand.exists_command (hfits : v.length ≤ Script.maxElementSize) :
    ∃ command : Command, Script.IsWord command (Shorthand.push v) ∧ command.isPush ∧
      ∀ env : Env, env.flags.minimalData = true → v.length ≤ env.limits.maxElementSize →
        command.pushed env = .ok v := by
  cases hsmall : Element.isSmallNum v with
  | true =>
    obtain ⟨b, byte, rfl, hpush, hword, hisPush, hpushed⟩ := Element.exists_of_isSmallNum hsmall
    exact ⟨.opcode byte, hpush ▸ hword, hisPush, fun env _ _ => hpushed env⟩
  | false =>
    have hwritable : (Command.push v).isWritable := decide_eq_true hfits
    obtain ⟨word, hwrite, hword⟩ := Script.encodeCommand_of_isWritable hwritable
    rw [encodeCommand_eq_push hsmall hfits, Except.ok.injEq] at hwrite
    refine ⟨_, hwrite ▸ hword, Command.isPush_canonical v, fun env hminimal hsize => ?_⟩
    rw [Command.pushed_canonical hsize hminimal, hsmall]
    rfl

end

/-! ## Execution -/

namespace Machine

/-- Commands are executed, and there is room for one more element. -/
structure CanPush (limits : Limits) (m : Machine) : Prop where
  executing : m.isExecuting
  capacity : m.frame.stack.length < m.frame.stack.capacity
  size : m.frame.size < limits.maxStackSize

/-- Where no rule changes the program, a command that only pushes is reported and puts its element on the
stack, or it fails. -/
theorem CanPush.step_of_isPush (env : Env) {m : Machine} {command : Command}
    (h : m.CanPush env.limits) (hp2sh : env.flags.p2sh = false) (hwitness : env.flags.witness = false)
    (hpush : command.isPush) :
    step { toEnv := env } (.command command) m =
      match command.pushed env with
      | .error e => .error e (m.reported (entryEvent m.frame.stack.length (.command command)))
      | .ok data =>
        .ok () ((m.reported (entryEvent m.frame.stack.length (.command command))).pushed data) := by
  refine Machine.step_of_isPush hpush h.executing (fun hflag => ?_) (fun hflag => ?_) h.capacity h.size
  · rw [hp2sh] at hflag
    cases hflag
  · rw [hwitness] at hflag
    cases hflag

end Machine

/-- The shortest push of an element of at most 520 bytes is read as one command. What is written for the
push of the element is the same, unless the element is one of the numbers 1 to 16 or -1; then the shortest
push is shorter. Where pushes have to be minimal, no rule changes the program and there is room, the
command of the shortest push is reported and puts just the element on the stack, whereas the command of
the written push is refused as not minimal exactly if the element is one of these numbers. -/
theorem shortest_pushes_agree {v : Bytes} (hfits : v.length ≤ 520) :
    ∃ command written reread,
      Script.decode (Shorthand.push v) = .ok [command] ∧
      Script.encodeCommand (.push v) = .ok written ∧ Script.decode written = .ok [reread] ∧
      (Element.isSmallNum v = false → Shorthand.push v = written) ∧
      (Element.isSmallNum v → (Shorthand.push v).length < written.length) ∧
      ∀ (flags : Flags) (checker : Checker) (sighash : Digest 32) (m : Machine),
        flags.p2sh = false → flags.witness = false → flags.minimalData → m.CanPush {} →
          Machine.step { flags, checker, sighash } (.command command) m = .ok ()
            ((m.reported (Machine.entryEvent m.frame.stack.length (.command command))).pushed v) ∧
          ((∃ m', Machine.step { flags, checker, sighash } (.command reread) m =
            .error .minimalData m') ↔ Element.isSmallNum v) := by
  obtain ⟨command, hword, hpush, hpushed⟩ := Shorthand.exists_command hfits
  have hwritable : (Command.push v).isWritable := decide_eq_true hfits
  obtain ⟨written, hwrite, hreread⟩ := Script.encodeCommand_of_isWritable hwritable
  refine ⟨command, written, (Command.push v).canonical, Script.decode_of_isWord hword, hwrite,
    Script.decode_of_isWord hreread, fun hsmall => ?_, fun hsmall => ?_, ?_⟩
  · rw [Shorthand.encodeCommand_eq_push hsmall hfits] at hwrite
    exact Except.ok.inj hwrite
  · obtain ⟨b, byte, rfl, hshort, -⟩ := Element.exists_of_isSmallNum hsmall
    cases hwrite
    rw [hshort]
    exact Nat.lt_succ_self 1
  · intro flags checker sighash m hp2sh hwitness hminimal hroom
    let env : Env := { flags, checker, sighash }
    have hstep := hroom.step_of_isPush env hp2sh hwitness hpush
    rw [hpushed env hminimal hfits] at hstep
    refine ⟨hstep, ?_⟩
    have hagain := hroom.step_of_isPush env hp2sh hwitness (Command.isPush_canonical v)
    rw [Command.pushed_canonical hfits hminimal] at hagain
    cases hsmall : Element.isSmallNum v with
    | true =>
      rw [hsmall] at hagain
      exact ⟨fun _ => rfl, fun _ => ⟨_, hagain⟩⟩
    | false =>
      rw [hsmall] at hagain
      refine ⟨?_, nofun⟩
      rintro ⟨m', herror⟩
      have hboth := hagain.symm.trans herror
      cases hboth

/-- The number 16 is pushed by its opcode, and refused where it is pushed as a byte. -/
theorem shortest_pushes_agree_sixteen :
    ∃ command reread, Script.decode (Shorthand.push [0x10]) = .ok [command] ∧
      Script.decode [0x01, 0x10] = .ok [reread] ∧
      (∃ m, Machine.step { flags := { minimalData := true }, sighash := sha256 [] } (.command command)
        (.start {} [] []) = .ok () m ∧ m.frame.stack.elements = [[0x10]]) ∧
      ∃ m, Machine.step { flags := { minimalData := true }, sighash := sha256 [] } (.command reread)
        (.start {} [] []) = .error .minimalData m := by
  have hroom : (Machine.start {} [] []).CanPush {} := ⟨rfl, by decide, by decide⟩
  obtain ⟨command, written, reread, hread, hwrite, hreread, -, -, hsteps⟩ :=
    shortest_pushes_agree (v := [0x10]) (by decide)
  cases hwrite
  obtain ⟨hstep, hrefused⟩ :=
    hsteps { minimalData := true } Checker.rejecting (sha256 []) _ rfl rfl rfl hroom
  exact ⟨command, reread, hread, hreread, ⟨_, hstep, rfl⟩, hrefused.2 rfl⟩

end CoinScript
