import CoinScript.Proofs.Pushes

/-!
# Payments to a witness script

An output that pays to a witness program is spent with an empty unlocking script: the program takes
what it needs from the witness. The main result is the complete outcome for a program that commits to a
script: unless the witness does not fit, the script runs on the other elements as if an unlocking script
had pushed them.
-/

namespace CoinScript

namespace Machine

variable {limits : Limits} {m : Machine} {bytes : Bytes} {program : WitnessProgram}

/-! ## Expanding a program -/

theorem act_drop_of_cons {top : Bytes} {rest : List Bytes}
    (h : m.frame.stack.elements = top :: rest) :
    act Action.drop m = .ok () { m with
      frame := { m.frame with stack := .ofList rest m.frame.stack.capacity } } := by
  simp only [act, Action.drop, Action.pop, Action.take, bind, EStateM.bind, pure, EStateM.pure,
    Stack.pop_of_cons h]

/-- A program above the empty version is taken off the stack and expanded. -/
theorem expandWitness_of_program (hprogram : WitnessProgram.ofBytes? bytes = some program)
    (hstack : m.frame.stack.elements = [bytes, []]) :
    expandWitness limits m = expand limits program { m with
      frame := { m.frame with stack := .ofList [] m.frame.stack.capacity } } := by
  have hfound : witnessProgram? m.frame.stack = some program := by
    rw [witnessProgram?, hstack]
    exact hprogram
  rw [expandWitness_eq, hfound]
  simp only
  rw [bind_of_ok (act_drop_of_cons hstack), bind_of_ok (act_drop_of_cons (Stack.elements_ofList _ _))]
  rfl

section ExpandScript

variable {hash : Digest 32} {args : List Bytes} {body : Bytes}

theorem expandScript_of_mismatch (limits : Limits) (hwitness : m.witness = args ++ [body])
    (hhash : sha256 body ≠ hash) :
    expandScript limits hash m = .error .witnessProgramMismatch { m with witness := [] } := by
  have htake : takeWitness m = .ok (args ++ [body]) { m with witness := [] } := by
    rw [takeWitness, hwitness]
  rw [expandScript, bind_of_ok htake, List.getLast?_concat]
  simp only [if_neg hhash]
  rfl

/-- A script with the hash, at the end of the witness, runs after the other elements. -/
theorem expandScript_of_match (limits : Limits) (hwitness : m.witness = args ++ [body])
    (hhash : sha256 body = hash) :
    ∃ pool, expandScript limits hash m = match Script.parseRaw body with
      | .error e => .error (.injectedScript e) { m with witness := [], pool }
      | .ok script => runLast limits (args.map .witness ++ script.map .command)
          { m with witness := [], pool, events := .expandedScript hash args script :: m.events } := by
  have htake : takeWitness m = .ok (args ++ [body]) { m with witness := [] } := by
    rw [takeWitness, hwitness]
  obtain ⟨pool, hparsed⟩ := parseInjected_eq body { m with witness := [] }
  refine ⟨pool, ?_⟩
  rw [expandScript, bind_of_ok htake, List.getLast?_concat, List.dropLast_concat]
  simp only [if_pos hhash]
  cases hparse : Script.parseRaw body with
  | error e =>
    rw [hparse] at hparsed
    simp only [bind, EStateM.bind, hparsed]
  | ok script =>
    rw [hparse] at hparsed
    rw [bind_of_ok hparsed]
    rfl

end ExpandScript

/-- The stacks stay as they are when a program is expanded. -/
theorem expand_frame {m' : Machine} (h : expand limits program m = .ok () m') :
    m'.frame = m.frame := by
  cases program with
  | pubKeyHash hash =>
    obtain ⟨witness, m₁, h₁, h⟩ := bind_eq_ok h
    cases h₁
    obtain ⟨_, m₂, h₂, h⟩ := bind_eq_ok h
    cases h₂
    rw [runLast_eq_ok h]
  | scriptHash hash =>
    obtain ⟨witness, m₁, h₁, h⟩ := bind_eq_ok h
    cases h₁
    cases hlast : m.witness.getLast? with
    | none =>
      rw [hlast] at h
      cases h
    | some body =>
      rw [hlast] at h
      simp only at h
      split at h
      · obtain ⟨script, m₂, h₂, h⟩ := bind_eq_ok h
        obtain ⟨pool, -, rfl⟩ := parseInjected_ok h₂
        obtain ⟨_, m₃, h₃, h⟩ := bind_eq_ok h
        cases h₃
        rw [runLast_eq_ok h]
      · cases h

/-- The push of a program that is the last thing to be run, above the empty version. -/
theorem pushData_of_program {env : Env} (hflag : env.flags.witness)
    (hprogram : WitnessProgram.ofBytes? bytes = some program)
    (hsize : bytes.length ≤ env.limits.maxElementSize) (hneeded : Element.needsPush bytes)
    (hexec : m.isExecuting) (hpending : m.pending = [])
    (hstack : m.frame.stack = .ofList [[]] env.limits.maxStackSize)
    (hroom : 1 < env.limits.maxStackSize) :
    pushData env true bytes m = expand env.limits program { m with
      frame := { m.frame with stack := .new env.limits.maxStackSize } } := by
  have hroom' : m.frame.stack.length < m.frame.stack.capacity := by
    simpa [hstack] using hroom
  have hhash : (m.pushed bytes).pendingHash? = none := by
    simp only [pushed, pendingHash?, hpending]
  have hexpand : expandWitness env.limits (m.pushed bytes) = _ :=
    expandWitness_of_program hprogram (by simp [pushed, hstack])
  rw [pushData_eq, if_neg (Nat.not_lt.2 hsize), hexec, if_neg (by simp), hneeded, Bool.not_true,
    Bool.and_false, if_neg Bool.false_ne_true, bind_of_ok (act_push_of_room hroom'),
    bind_of_ok (redeemPending_of_none fun _ => hhash), hflag, onlyIf, if_pos rfl, hexpand]
  simp [pushed, hstack, Stack.new]

end Machine

/-! ## Spending -/

section Spending

variable {flags : Flags} {checker : Checker} {sighash : Digest 32}

theorem Element.needsPush_of_length {element : Bytes} (h : 2 ≤ element.length) :
    Element.needsPush element := by
  unfold Element.needsPush
  split
  · simp at h
  · simp at h
  · rfl

theorem WitnessProgram.length_of_ofBytes? {bytes : Bytes} {program : WitnessProgram}
    (h : WitnessProgram.ofBytes? bytes = some program) :
    bytes.length = 20 ∨ bytes.length = 32 := by
  unfold WitnessProgram.ofBytes? Digest.ofBytes? at h
  split at h
  · rename_i hsome
    split at hsome
    · exact .inl ‹_›
    · cases hsome
  · split at h
    · exact .inr ‹_›
    · cases h

/-- With an empty unlocking script, a program is expanded before anything else happens. -/
theorem verifyScript_program {bytes : Bytes} {program : WitnessProgram} (hflag : flags.witness)
    (hprogram : WitnessProgram.ofBytes? bytes = some program) (witness : List Bytes) :
    ∃ events, verifyScript flags checker sighash [] [.ofOpcode .op0, .push bytes] witness =
      Machine.verdictAfter { flags, checker, sighash }
        (Machine.expand {} program { Machine.start {} [] witness with events }) := by
  let env : Env := { flags, checker, sighash }
  let pushed : Machine := (Machine.start {} [] witness).loaded [[]] [.command (.push bytes)]
  let event : Event := .step (.push bytes) 1
  have hlength := WitnessProgram.length_of_ofBytes? hprogram
  have hpushed : verifyScript flags checker sighash [] [.ofOpcode .op0, .push bytes] witness =
      pushed.verdict { toEnv := env } := by
    have hversion : Script.pushed env [.ofOpcode .op0] = .ok [[]] := rfl
    rw [← List.singleton_append, ← verifyScript_append rfl rfl, List.nil_append,
      verifyScript_of_pushes rfl (by simp) (by simp) (by simp [Script.p2sh])
        (by simp [Command.ofOpcode]), hversion]
    rfl
  have hrun : Machine.pushData env true bytes (.reported { pushed with pending := [] } event) = _ :=
    Machine.pushData_of_program hflag hprogram (by simp only [env, Script.maxElementSize]; omega)
      (Element.needsPush_of_length (by omega)) rfl rfl rfl (by simp [env])
  refine ⟨event :: pushed.events, ?_⟩
  rw [hpushed]
  cases hexpand : Machine.expand {} program _ with
  | error e m => exact Machine.verdict_of_step_error rfl (Machine.step_of_error (hrun.trans hexpand))
  | ok _ m =>
    have hsize : m.frame.size ≤ env.limits.maxStackSize := by
      rw [Machine.expand_frame hexpand]
      exact Nat.zero_le _
    exact Machine.verdict_of_step_ok rfl (Machine.step_of_ok (hrun.trans hexpand) hsize)

/-- Elements of the witness and a script run after everything else as if an unlocking script had pushed
the elements. -/
theorem verdict_of_runLast {args : List Bytes} {script : Script} {pool : BufferPool}
    {events : List Event} (hneeded : flags.minimalData → ∀ data ∈ args, Element.needsPush data) :
    Machine.verdictAfter { flags, checker, sighash }
        (Machine.runLast {} (args.map .witness ++ script.map .command)
          { Machine.start {} [] [] with pool, events }) =
      verifyScript flags checker sighash (args.map .push) script [] := by
  have hpush : Script.isPushOnly (args.map .push) := by
    simp [Script.isPushOnly, Command.isPush]
  have hlength : (args.map Command.push ++ script).length =
      (args.map Entry.witness ++ script.map Entry.command).length := by simp
  rw [verifyScript_eq, hpush, Bool.not_true, Bool.and_false, if_neg Bool.false_ne_true, hlength]
  unfold Machine.runLast
  by_cases hfits : ({} : Limits).maxCommands <
      (args.map Entry.witness ++ script.map Entry.command).length
  · rw [if_pos hfits, if_pos (by simpa [Machine.start] using hfits)]
    rfl
  · rw [if_neg hfits, if_neg (by simpa [Machine.start] using hfits)]
    apply Machine.verdict_eq_of_alike
    refine ⟨.refl _, ⟨args, script.map .command, hneeded, rfl, ?_⟩, rfl, rfl⟩
    simp [Machine.start]

/-- The complete outcome of a spend of an output that pays to a witness script, with an empty unlocking
script. The witness has to end with a script that has the hash; that script runs on the other elements,
as it would if an unlocking script had pushed them. -/
theorem verifyScript_p2wsh (flags : Flags) (hflag : flags.witness)
    (hminimal : flags.minimalData = false) (checker : Checker) (sighash program : Digest 32) :
    verifyScript flags checker sighash [] (Script.p2wsh program) [] =
        .error .witnessProgramWitnessEmpty ∧
      ∀ args body, verifyScript flags checker sighash [] (Script.p2wsh program) (args ++ [body]) =
        if sha256 body ≠ program then .error .witnessProgramMismatch
        else match Script.parseRaw body with
          | .error _ => .error .unknownError
          | .ok script => verifyScript flags checker sighash (args.map .push) script [] := by
  have hprogram := WitnessProgram.ofBytes?_scriptHash program
  refine ⟨?_, ?_⟩
  · obtain ⟨events, hverify⟩ := verifyScript_program hflag hprogram []
    exact hverify
  · intro args body
    obtain ⟨events, hverify⟩ := verifyScript_program hflag hprogram (args ++ [body])
    refine hverify.trans ?_
    by_cases hhash : sha256 body = program
    · obtain ⟨pool, hexpand⟩ := Machine.expandScript_of_match {}
        (m := { Machine.start {} [] (args ++ [body]) with events }) rfl hhash
      rw [if_neg (not_not_intro hhash)]
      refine (congrArg _ hexpand).trans ?_
      cases hparse : Script.parseRaw body with
      | error e => rfl
      | ok script => exact verdict_of_runLast (by simp [hminimal])
    · rw [if_pos hhash]
      exact congrArg _ (Machine.expandScript_of_mismatch {} rfl hhash)

/-- The script that compares an element with itself, at the end of a witness. -/
theorem verifyScript_p2wsh_dup_equal :
    verifyScript { witness := true } .rejecting (sha256 []) []
        (Script.p2wsh (sha256 [0x76, 0x87])) [[0x2a], [0x76, 0x87]] =
      verifyScript { witness := true } .rejecting (sha256 []) [.push [0x2a]]
        [.ofOpcode .opDup, .ofOpcode .opEqual] [] := by
  have hparse : Script.parseRaw [0x76, 0x87] = .ok [.ofOpcode .opDup, .ofOpcode .opEqual] :=
    Script.parseRaw_of_toOption (by decide +kernel)
  have h := (verifyScript_p2wsh { witness := true } rfl rfl .rejecting (sha256 [])
    (sha256 [0x76, 0x87])).2 [[0x2a]] [0x76, 0x87]
  rw [if_neg (not_not_intro rfl), hparse] at h
  exact h

end Spending

end CoinScript
