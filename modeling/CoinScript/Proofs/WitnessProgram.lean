import CoinScript.Proofs.PubKeyHash
import CoinScript.Proofs.WitnessScript

/-!
# Witness programs

An output that pays to a witness program is spent with what the witness holds. With an empty unlocking
script, the program for a key does what paying to the key does on arguments that an unlocking script
pushes. Any other unlocking script has run before the program is pushed, and a program is expanded only
if it found the empty stack and is executed. The other main result is what a spend needs then.
-/

namespace CoinScript

/-! ## Payments to a key -/

/-- With an empty unlocking script, a spend of an output that pays to the program for a key is a spend
of an output that pays to the key, by an unlocking script that pushes the elements of the witness. -/
theorem verifyScript_p2wpkh (flags : Flags) (hflag : flags.witness) (checker : Checker)
    (sighash : Digest 32) (hash : Digest 20) (witness : List Bytes)
    (hminimal : flags.minimalData = false ∨ ∀ data ∈ witness, Element.needsPush data) :
    verifyScript flags checker sighash [] (Script.p2wpkh hash) witness =
      verifyScript flags checker sighash (witness.map .push) (Script.p2pkh hash) [] := by
  have hneeded : flags.minimalData → ∀ data ∈ witness, Element.needsPush data := by
    intro hset
    rcases hminimal with hunset | hneeded
    · rw [hunset] at hset
      cases hset
    · exact hneeded
  obtain ⟨events, hverify⟩ :=
    verifyScript_program hflag (WitnessProgram.ofBytes?_pubKeyHash hash) witness
  exact hverify.trans (verdict_of_runLast hneeded)

/-- A signature and a key from the witness. Both spends are accepted with the right key, and both fail
with another one. -/
theorem verifyScript_p2wpkh_signed :
    let hash := hash160 [0x02, 0x02]
    let spend (scriptSig scriptPubKey : Script) (witness : List Bytes) :=
      verifyScript { witness := true, minimalData := true }
        ⟨fun _ key _ => key = [0x02, 0x02], fun _ => false⟩ (sha256 []) scriptSig scriptPubKey witness
    (spend [] (Script.p2wpkh hash) [[0x30, 0x01], [0x02, 0x02]] = .ok () ∧
        spend [.push [0x30, 0x01], .push [0x02, 0x02]] (Script.p2pkh hash) [] = .ok ()) ∧
      spend [] (Script.p2wpkh hash) [[0x30, 0x01], [0x03, 0x03]] = .error .equalVerify ∧
        spend [.push [0x30, 0x01], .push [0x03, 0x03]] (Script.p2pkh hash) [] =
          .error .equalVerify := by
  intro hash spend
  have hsame {witness : List Bytes} (hneeded : ∀ data ∈ witness, Element.needsPush data) :
      spend [] (Script.p2wpkh hash) witness = spend (witness.map .push) (Script.p2pkh hash) [] :=
    verifyScript_p2wpkh _ rfl _ _ _ _ (.inr hneeded)
  have haccepted : spend [.push [0x30, 0x01], .push [0x02, 0x02]] (Script.p2pkh hash) [] = .ok () :=
    verifyScript_of_runIn 8 rfl (by decide) (by decide +kernel)
  have hfailed : spend [.push [0x30, 0x01], .push [0x03, 0x03]] (Script.p2pkh hash) [] =
      .error .equalVerify :=
    verifyScript_of_runIn 8 rfl (by decide) (by decide +kernel)
  refine ⟨⟨?_, haccepted⟩, ?_, hfailed⟩
  · exact (hsame (by decide)).trans haccepted
  · exact (hsame (by decide)).trans hfailed

/-! ## Checks behind one another -/

namespace Machine

variable {env : Env} {m m' : Machine}

/-- No witness is left, and behind other entries there is a check for a hash. What is behind that are
checks for programs that have been expanded. -/
structure ChecksBehind (hash : Digest 20) (front : List Entry) (m : Machine) : Prop where
  witness : m.witness = []
  checks : ∃ hashes, m.pending = front ++ (Script.checks (hash :: hashes)).map .command ∧
    ∀ other ∈ hashes, ∃ elements, .expandedKey other elements ∈ m.events

/-- The program for a key puts the check for its hash behind what is pending and the witness. -/
theorem checksBehind_of_expanded {hash : Digest 20}
    (hprogram : witnessProgram? m.frame.stack = some (.pubKeyHash hash)) (h : Expanded m m') :
    m'.ChecksBehind hash (m.pending ++ m.witness.map .witness) := by
  cases h with
  | nothing hstack => simp [hprogram] at hstack
  | script hstack => simp [hprogram] at hstack
  | key hstack =>
    rw [hprogram] at hstack
    cases hstack
    refine ⟨rfl, [], ?_, ?_⟩
    · simp [Script.checks]
    · intro other hother
      cases hother

/-- The program for a script is expanded only if the witness ends with the script. -/
theorem witness_of_expanded {hash : Digest 32}
    (hprogram : witnessProgram? m.frame.stack = some (.scriptHash hash)) (h : Expanded m m') :
    ∃ args body, m.witness = args ++ [body] ∧ sha256 body = hash := by
  cases h with
  | nothing hstack => simp [hprogram] at hstack
  | key hstack => simp [hprogram] at hstack
  | @script other args body _ _ hstack htaken hhash =>
    rw [hprogram] at hstack
    cases hstack
    exact ⟨args, body, htaken, hhash⟩

/-- A step in front of the checks can only add one more behind them. -/
theorem ChecksBehind.step {config : Config} {hash : Digest 20} {entry : Entry} {front : List Entry}
    (hbehind : m.ChecksBehind hash (entry :: front)) (h : m.run config = .ok () m') :
    ∃ next : Machine, next.ChecksBehind hash front ∧ next.run config = .ok () m' := by
  obtain ⟨hashes, hp, hexpanded⟩ := hbehind.checks
  obtain ⟨next, hstep, h⟩ := run_cons_ok hp h
  refine ⟨next, ?_, h⟩
  have hlong : (Script.checks (hash :: hashes)).Blocks :=
    Script.blocks_of_length (by simp [Script.checks, Script.p2pkh])
  have hhash : pendingHash?
      { m with pending := front ++ (Script.checks (hash :: hashes)).map .command } = none := by
    apply pendingHash?_eq_none
    simpa using hlong front []
  have hkept : ∀ other ∈ hashes, ∃ elements, .expandedKey other elements ∈ next.events := by
    intro other hother
    obtain ⟨elements, hevent⟩ := hexpanded other hother
    exact ⟨elements, step_events hstep hevent⟩
  cases spliced_of_step hhash hstep with
  | same hnext hwitness => exact ⟨hwitness.trans hbehind.witness, hashes, hnext, hkept⟩
  | @key other hflag hprogram hevent hnext hnone =>
    refine ⟨hnone, hashes ++ [other], ?_, ?_⟩
    · simp [hnext, hbehind.witness, Script.checks]
    · intro found hfound
      rcases List.mem_append.1 hfound with hold | hnew
      · exact hkept found hold
      · rw [List.mem_singleton.1 hnew]
        exact ⟨_, hevent⟩
  | script hflag hprogram hevent htaken => simp [hbehind.witness] at htaken

/-- So a run succeeds only on a signature under a key with the hash, or under the empty key if a program
for that has been expanded. -/
theorem ChecksBehind.signed {hash : Digest 20} {front : List Entry}
    (hbehind : m.ChecksBehind hash front) (h : m.run { toEnv := env } = .ok () m') :
    ∃ sig key, env.checker.checkSig sig key env.sighash = true ∧
      (hash160 key = hash ∨
        key = [] ∧ ∃ elements, .expandedKey (hash160 []) elements ∈ m'.events) := by
  -- Every step uses up an entry in front of the checks and adds none there.
  induction front generalizing m with
  | nil =>
    obtain ⟨hashes, hp, hexpanded⟩ := hbehind.checks
    obtain ⟨sig, key, hsigned, hkey⟩ := signed_of_checks hp h
    refine ⟨sig, key, hsigned, hkey.imp_right ?_⟩
    rintro ⟨hempty, hmem⟩
    obtain ⟨elements, hevent⟩ := hexpanded _ hmem
    exact ⟨hempty, elements, run_events h hevent⟩
  | cons entry front ih =>
    obtain ⟨next, hnext, h⟩ := hbehind.step h
    exact ih hnext h

/-! ## Programs that are next -/

/-- What it takes for a locking script to have its witness program expanded, with the machine as the
unlocking script has left it: the stack is empty, the arm runs, and the push of the program does not
stand in front of a comparison with a hash, which would come first. -/
structure ReadyToExpand (flags : Flags) (lock : Script) (m : Machine) : Prop where
  empty : m.frame.stack.elements = []
  executing : m.isExecuting
  uncompared : flags.p2sh → ∀ hash, m.pending ≠ (lock ++ Script.p2sh hash).map .command

/-- With nothing behind the locking script, its program is not in front of a comparison. -/
theorem readyToExpand_of_length {flags : Flags} {lock : Script}
    (hempty : m.frame.stack.elements = []) (hexec : m.isExecuting)
    (hlength : m.pending.length = lock.length) : m.ReadyToExpand flags lock := by
  refine ⟨hempty, hexec, ?_⟩
  intro _ hash hp
  rw [hp] at hlength
  simp [Script.p2sh] at hlength

/-- From there, a run that succeeds has expanded the program. -/
theorem expanded_of_ready {bytes : Bytes} {program : WitnessProgram} {behind : List Entry}
    (hready : m.ReadyToExpand env.flags [.ofOpcode .op0, .push bytes]) (hflag : env.flags.witness)
    (hprogram : WitnessProgram.ofBytes? bytes = some program)
    (hp : m.pending = [Command.ofOpcode .op0, .push bytes].map .command ++ behind)
    (h : m.run { toEnv := env } = .ok () m') :
    ∃ before next, Expanded before next ∧ witnessProgram? before.frame.stack = some program ∧
      before.witness = m.witness ∧ next.run { toEnv := env } = .ok () m' := by
  obtain ⟨m₁, _, hp₁, hwitness, hexec, hrun, h⟩ := run_opcode_ok hp hready.executing rfl rfl h
  have hstack : m₁.frame.stack.elements = [[]] := by
    rw [Action.push_eq_ok hrun]
    simp [hready.empty]
  obtain ⟨next, hstep, h⟩ := run_cons_ok hp₁ h
  obtain ⟨hrun, -⟩ := step_ok hstep
  have hhash : env.flags.p2sh → ({ m₁ with pending := behind } : Machine).pendingHash? = none := by
    intro hset
    apply pendingHash?_eq_none
    rintro hash rfl
    exact hready.uncompared hset hash hp
  rcases expanded_of_pushData hrun hexec hhash with ⟨-, hexpanded⟩ | ⟨hunset, -⟩
  · refine ⟨_, next, hexpanded, ?_, hwitness, h⟩
    simpa [witnessProgram?, pushed, reported, hstack] using hprogram
  · rw [hflag] at hunset
    cases hunset

end Machine

/-! ## Unlocking scripts that are not empty -/

theorem Script.blocks_of_program (bytes : Bytes) :
    Script.Blocks [.ofOpcode .op0, .push bytes] := by
  apply Script.blocks_of_mem List.mem_cons_self
  intro hash hmem
  simp [Script.p2sh, Command.ofOpcode, Opcode.byte, Opcode.spelling] at hmem

section Spending

variable {flags : Flags} {checker : Checker} {sighash : Digest 32} {scriptSig : Script}
  {witness : List Bytes}

/-- Whatever the unlocking script is, a spend that is accepted has run it to its end, and the locking
script is next. If its program can be expanded then, it is, with the whole witness or with none. -/
theorem expanded_of_verifyScript {bytes : Bytes} {program : WitnessProgram} (hflag : flags.witness)
    (hprogram : WitnessProgram.ofBytes? bytes = some program)
    (h : verifyScript flags checker sighash scriptSig [.ofOpcode .op0, .push bytes] witness =
      .ok ()) :
    ∃ m, Machine.after? { flags, checker, sighash } scriptSig.length
        (.start {} (scriptSig ++ [.ofOpcode .op0, .push bytes]) witness) = some m ∧
      (∃ behind, m.pending = [Command.ofOpcode .op0, .push bytes].map .command ++ behind) ∧
      (m.ReadyToExpand flags [.ofOpcode .op0, .push bytes] → ∃ before next last,
        Machine.Expanded before next ∧ Machine.witnessProgram? before.frame.stack = some program ∧
        (before.witness = witness ∨ before.witness = []) ∧
        next.run { flags, checker, sighash } = .ok () last ∧
        last.events ⊆ (verify { flags, checker, sighash } scriptSig
          [.ofOpcode .op0, .push bytes] witness).events) := by
  obtain ⟨last, hrun, hevents⟩ := verifyScript_ok h
  have hpending : (Machine.start {} (scriptSig ++ [.ofOpcode .op0, .push bytes]) witness).pending =
      scriptSig.map .command ++ ([Command.ofOpcode .op0, .push bytes].map .command ++ []) := by
    simp [Machine.start]
  obtain ⟨m, behind, hafter, hrun, hp, hcases⟩ :=
    Machine.after?_of_run (Script.blocks_of_program bytes) hpending hrun
  refine ⟨m, hafter, ⟨behind, hp⟩, ?_⟩
  intro hready
  obtain ⟨before, next, hexpanded, hstack, hwitness, hrun⟩ :=
    Machine.expanded_of_ready hready hflag hprogram hp hrun
  refine ⟨before, next, last, hexpanded, hstack, ?_, hrun, hevents⟩
  rcases hcases with ⟨-, hkept⟩ | ⟨-, htaken, -⟩
  · exact .inl (hwitness.trans hkept)
  · exact .inr (hwitness.trans htaken)

end Spending

/-- Whatever the unlocking script is, a spend that is accepted has run it to its end, and the locking
script is next. If its program can be expanded then, an output that pays to a key needs a signature under
a key with the hash, or under the empty key if the program for that was expanded as well, and an output
that pays to a witness script needs a witness that ends with the script. -/
theorem verifyScript_witnessProgram_ok {flags : Flags} (hflag : flags.witness) (checker : Checker)
    (sighash : Digest 32) (scriptSig : Script) (witness : List Bytes) :
    (∀ hash, verifyScript flags checker sighash scriptSig (Script.p2wpkh hash) witness = .ok () →
      ∃ m, Machine.after? { flags, checker, sighash } scriptSig.length
          (.start {} (scriptSig ++ Script.p2wpkh hash) witness) = some m ∧
        (∃ behind, m.pending = (Script.p2wpkh hash).map .command ++ behind) ∧
        (m.ReadyToExpand flags (Script.p2wpkh hash) →
          ∃ sig key, checker.checkSig sig key sighash = true ∧
            (hash160 key = hash ∨ key = [] ∧ ∃ elements, .expandedKey (hash160 []) elements ∈
              (verify { flags, checker, sighash } scriptSig (Script.p2wpkh hash) witness).events))) ∧
      ∀ program, verifyScript flags checker sighash scriptSig (Script.p2wsh program) witness = .ok () →
        ∃ m, Machine.after? { flags, checker, sighash } scriptSig.length
            (.start {} (scriptSig ++ Script.p2wsh program) witness) = some m ∧
          (∃ behind, m.pending = (Script.p2wsh program).map .command ++ behind) ∧
          (m.ReadyToExpand flags (Script.p2wsh program) →
            ∃ args body, witness = args ++ [body] ∧ sha256 body = program) := by
  constructor
  · intro hash h
    obtain ⟨m, hafter, hnext, hexpands⟩ :=
      expanded_of_verifyScript hflag (WitnessProgram.ofBytes?_pubKeyHash hash) h
    refine ⟨m, hafter, hnext, ?_⟩
    intro hready
    obtain ⟨before, next, last, hexpanded, hprogram, -, hrun, hevents⟩ := hexpands hready
    obtain ⟨sig, key, hsigned, hkey⟩ :=
      (Machine.checksBehind_of_expanded hprogram hexpanded).signed hrun
    refine ⟨sig, key, hsigned, hkey.imp_right ?_⟩
    rintro ⟨hempty, elements, hevent⟩
    exact ⟨hempty, elements, hevents hevent⟩
  · intro program h
    obtain ⟨m, hafter, hnext, hexpands⟩ :=
      expanded_of_verifyScript hflag (WitnessProgram.ofBytes?_scriptHash program) h
    refine ⟨m, hafter, hnext, ?_⟩
    intro hready
    obtain ⟨before, next, last, hexpanded, hprogram, hwitness, -⟩ := hexpands hready
    obtain ⟨args, body, htaken, hhash⟩ := Machine.witness_of_expanded hprogram hexpanded
    rcases hwitness with hwhole | hnone
    · exact ⟨args, body, hwhole.symm.trans htaken, hhash⟩
    · rw [hnone] at htaken
      simp at htaken

/-- A spend by an unlocking script that leaves an empty stack. -/
theorem verifyScript_witnessProgram_ok_signed :
    ∃ sig key, Checker.checkSig ⟨fun _ key _ => key = [0x02], fun _ => false⟩ sig key (sha256 []) =
      true ∧ hash160 key = hash160 [0x02] := by
  let checker : Checker := ⟨fun _ key _ => key = [0x02], fun _ => false⟩
  let scriptSig : Script := [.ofOpcode .op1, .ofOpcode .opDrop]
  have h : verifyScript { witness := true } checker (sha256 []) scriptSig
      (Script.p2wpkh (hash160 [0x02])) [[0x30], [0x02]] = .ok () :=
    verifyScript_of_runIn 12 rfl (by decide) (by decide +kernel)
  obtain ⟨m, hafter, -, hsigned⟩ := (verifyScript_witnessProgram_ok rfl checker (sha256 [])
    scriptSig [[0x30], [0x02]]).1 (hash160 [0x02]) h
  have hleft : (Machine.after? { flags := { witness := true }, checker, sighash := sha256 [] }
      scriptSig.length
      (.start {} (scriptSig ++ Script.p2wpkh (hash160 [0x02])) [[0x30], [0x02]])).all fun m =>
        m.frame.stack.elements = [] ∧ m.isExecuting ∧ m.pending.length = 2 := by
    decide +kernel
  rw [hafter] at hleft
  obtain ⟨hempty, hexec, hlength⟩ := of_decide_eq_true hleft
  obtain ⟨sig, key, hchecked, hkey⟩ :=
    hsigned (Machine.readyToExpand_of_length hempty hexec hlength)
  refine ⟨sig, key, hchecked, ?_⟩
  rcases hkey with hkey | ⟨rfl, -⟩
  · exact hkey
  · cases hchecked

/-- Not every unlocking script leaves the program to be expanded: there may be more on the stack, the arm
may not run, or the program may be redeemed as a script. And if the witness has the program for the empty
key expanded, a signature under the key with the hash is not needed. -/
theorem verifyScript_witnessProgram_ok_unsigned :
    Flags.standard.witness ∧
      verifyScript .standard .rejecting ⟨List.replicate 32 0, rfl⟩ [.ofOpcode .op1]
        (Script.p2wpkh ⟨List.replicate 20 0x11, rfl⟩) [] = .ok () ∧
      verifyScript .standard .rejecting ⟨List.replicate 32 0, rfl⟩ [.ofOpcode .op1]
        (Script.p2wsh ⟨List.replicate 32 0x11, rfl⟩) [] = .ok () ∧
      verifyScript .standard .rejecting ⟨List.replicate 32 0, rfl⟩
        [.ofOpcode .op0, .push (sha256 [0x68, 0x51]).bytes, .ofOpcode .op0, .ofOpcode .opIf]
        (Script.p2wpkh ⟨List.replicate 20 0x11, rfl⟩) [[0x68, 0x51]] = .ok () ∧
      verifyScript .standard .rejecting ⟨List.replicate 32 0, rfl⟩
        [.ofOpcode .op0, .push (sha256
          ([0xa9, 0x14] ++ (hash160 (List.replicate 20 0x51)).bytes ++ [0x87])).bytes]
        (Script.p2wpkh ⟨List.replicate 20 0x51, rfl⟩)
        [[0xa9, 0x14] ++ (hash160 (List.replicate 20 0x51)).bytes ++ [0x87]] = .ok () ∧
      (¬∃ sig key, Checker.rejecting.checkSig sig key ⟨List.replicate 32 0, rfl⟩ = true) ∧
      verifyScript .standard ⟨fun _ key _ => key = [], fun _ => false⟩ ⟨List.replicate 32 0, rfl⟩ []
        (Script.p2wpkh (hash160 [0x02])) [[], (hash160 []).bytes, [0xaa], [0xbb], [0x02]] = .ok () ∧
      ¬∃ sig key, hash160 key = hash160 [0x02] ∧
        Checker.checkSig ⟨fun _ key _ => key = [], fun _ => false⟩ sig key
          ⟨List.replicate 32 0, rfl⟩ = true := by
  refine ⟨rfl, ?_, ?_, ?_, ?_, ?_, ?_, ?_⟩
  · exact verifyScript_of_runIn 4 rfl (by decide) (by decide +kernel)
  · exact verifyScript_of_runIn 4 rfl (by decide) (by decide +kernel)
  · exact verifyScript_of_runIn 10 rfl (by decide) (by decide +kernel)
  · exact verifyScript_of_runIn 30 rfl (by decide) (by decide +kernel)
  · rintro ⟨sig, key, hsigned⟩
    cases hsigned
  · exact verifyScript_of_runIn 20 rfl (by decide) (by decide +kernel)
  · rintro ⟨sig, key, hkey, hsigned⟩
    have hempty : key = [] := of_decide_eq_true hsigned
    rw [hempty] at hkey
    exact absurd hkey (by decide +kernel)

end CoinScript
