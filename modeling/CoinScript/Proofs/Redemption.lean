import CoinScript.Proofs.Pushes
import CoinScript.Proofs.Unlocking

/-!
# Redeeming scripts

An output that pays to the hash of a script is meant to be spent by running the script. The script is
redeemed when data is pushed and the comparison with the hash is all that is left. So it is not redeemed
if an opcode pushes it, or if a witness program has put something behind the comparison by then. The main
result is that an unlocking script that only pushes has the script redeemed in all other cases.
-/

namespace CoinScript

namespace Machine

variable {env : Env} {m m' : Machine} {hash : Digest 20}

/-! ## Comparing with a hash -/

/-- The comparison succeeds only on an element with the hash, if nothing is behind it. -/
theorem run_p2sh_ok (hp : m.pending = (Script.p2sh hash).map .command) (hexec : m.isExecuting)
    (h : m.run { toEnv := env } = .ok () m') :
    ∃ top rest, m.frame.stack.elements = top :: rest ∧ hash160 top = hash := by
  obtain ⟨m₁, _, hp, -, hexec, hrun, h⟩ := run_opcode_ok hp hexec rfl rfl h
  obtain ⟨top, rest, hstack, hhashed⟩ := Action.hash160_eq_ok hrun
  have hno : ∀ other, [.command (.ofOpcode .opEqual)] ≠ (Script.p2sh other).map Entry.command := by
    simp [Script.p2sh]
  -- The hash is not the empty version, so the push behind it is no witness program.
  have hbelow : m₁.frame.stack.elements ≠ [[]] := by
    intro hempty
    have hlength := (hash160 top).length_bytes
    rw [hhashed] at hempty
    rw [(List.cons.inj hempty).1] at hlength
    cases hlength
  obtain ⟨m₂, hp, hexec, hpushed, h⟩ := run_push_ok hp hexec hno hbelow h
  obtain ⟨m₃, _, hp, -, hexec, hrun, h⟩ := run_opcode_ok hp hexec rfl rfl h
  obtain ⟨x, y, rest', hbefore, hequal⟩ := Action.opEqual_eq_ok hrun
  rw [hpushed, hhashed] at hbefore
  cases hbefore
  rw [run_of_nil hp] at h
  obtain ⟨-, -, result, below, hresult, hsuccess⟩ := finish_ok h
  rw [hequal] at hresult
  cases hresult
  refine ⟨top, rest, hstack, ?_⟩
  by_cases hsame : (hash160 top).bytes = hash.bytes
  · exact Digest.ext hsame
  · rw [decide_eq_false hsame] at hsuccess
    cases hsuccess

/-! ## The last push -/

/-- An opcode that pushes has done so without making any rule apply. -/
theorem run_pushed_ok {byte : UInt8} {rest : List Entry} (hpush : (Command.opcode byte).isPush)
    (hp : m.pending = .command (.opcode byte) :: rest) (hexec : m.isExecuting)
    (h : m.run { toEnv := env } = .ok () m') :
    ∃ (next : Machine) (element : Bytes), (Command.opcode byte).pushed env = .ok element ∧
      next.pending = rest ∧ next.isExecuting ∧
      next.frame.stack.elements = element :: m.frame.stack.elements ∧
      next.run { toEnv := env } = .ok () m' := by
  obtain ⟨next, _, handler, hfound, hnext, -, hexec, hrun, h⟩ :=
    run_execute_ok hp hexec (Command.isStraight_of_isPush hpush) h
  obtain ⟨-, -, -, hhandler, -⟩ := Command.opcode_of_isPush byte hpush
  simp only [hfound, List.mem_cons, List.not_mem_nil, or_false, reduceCtorEq, false_or,
    Option.some.injEq] at hhandler
  rcases hhandler with rfl | rfl
  · refine ⟨next, [], ?_, hnext, hexec, ?_, h⟩
    · simp only [Command.pushed, hfound]
    · rw [Action.push_eq_ok hrun, Stack.elements_ofList]
  · refine ⟨next, ScriptNum.encode (Action.constantOf byte), ?_, hnext, hexec, ?_, h⟩
    · simp only [Command.pushed, hfound]
    · rw [Action.push_eq_ok hrun, Stack.elements_ofList]

/-- A program that is expanded goes behind what is pending. -/
theorem Expanded.appends (h : Expanded m m') :
    m.pending <+: m'.pending ∧ m.events ⊆ m'.events := by
  cases h with
  | nothing => exact ⟨List.prefix_rfl, List.Subset.refl _⟩
  | key => exact ⟨List.prefix_append _ _, List.subset_cons_self _ _⟩
  | script => exact ⟨List.prefix_append _ _, List.subset_cons_self _ _⟩

/-- Data that is pushed in front of the comparison is a script with the hash, and it runs next. -/
theorem redeemed_of_step {body : Bytes} (hflag : env.flags.p2sh)
    (hp : m.pending = (Script.p2sh hash).map .command) (hexec : m.isExecuting)
    (h : step { toEnv := env } (.command (.push body)) m = .ok () m') :
    hash160 body = hash ∧ ∃ script, Script.parseRaw body = .ok script ∧
      script.map .command <+: m'.pending ∧ .redeemed hash script ∈ m'.events := by
  obtain ⟨hrun, -⟩ := step_ok h
  obtain ⟨m₁, hredeem, hexpand⟩ := pushData_of_executed hrun hexec
  have hkept : m₁.pending <+: m'.pending ∧ m₁.events ⊆ m'.events := by
    rcases hexpand with ⟨-, hexpanded⟩ | ⟨-, rfl⟩
    · exact hexpanded.appends
    · exact ⟨List.prefix_rfl, List.Subset.refl _⟩
  have hpending : m.pendingHash? = some hash := pendingHash?_eq_some_iff.2 hp
  rcases hredeem with ⟨-, hredeem⟩ | ⟨hunset, -⟩
  · cases hredeem with
    | nothing hnone =>
      rw [show m.pendingHash? = none from hnone] at hpending
      cases hpending
    | @script other top _ script pool hfound hstack hhash hparse =>
      rw [show m.pendingHash? = some other from hfound] at hpending
      cases hpending
      simp only [pushed, Stack.elements_ofList, List.cons.injEq] at hstack
      obtain ⟨rfl, -⟩ := hstack
      refine ⟨hhash, script, ?_, hkept.1, hkept.2 List.mem_cons_self⟩
      rw [← Script.parseRawWith_eq, hparse]
  · rw [hflag] at hunset
    cases hunset

/-- The last push of an unlocking script, if the comparison is all that is behind it: data is redeemed,
and what an opcode pushes has the hash. -/
theorem redeemed_or_revealed_of_run {last : Command} (hflag : env.flags.p2sh) (hpush : last.isPush)
    (hp : m.pending = (last :: Script.p2sh hash).map .command)
    (h : m.run { toEnv := env } = .ok () m') :
    (∃ body script next, last = .push body ∧ hash160 body = hash ∧
        Script.parseRaw body = .ok script ∧ after? { toEnv := env } 1 m = some next ∧
        script.map .command <+: next.pending ∧ .redeemed hash script ∈ m'.events) ∨
      ∃ byte element, last = .opcode byte ∧ last.pushed env = .ok element ∧ hash160 element = hash := by
  have hexec : m.isExecuting := by
    apply isExecuting_of_run _ hp h
    intro command hmem
    rcases List.mem_cons.1 hmem with rfl | hmem
    · exact Command.isStraight_of_isPush hpush
    · exact List.all_eq_true.1 (show (Script.p2sh hash).all Command.isStraight from rfl) command hmem
  cases last with
  | push body =>
    left
    obtain ⟨next, hstep, h⟩ := run_cons_ok hp h
    obtain ⟨hhash, script, hparse, hpending, hevent⟩ :=
      redeemed_of_step (m := { m with pending := _ }) hflag rfl hexec hstep
    exact ⟨body, script, next, rfl, hhash, hparse, after?_succ hp hstep, hpending,
      run_events h hevent⟩
  | opcode byte =>
    right
    obtain ⟨next, element, hpushed, hnext, hexec, hstack, h⟩ := run_pushed_ok hpush hp hexec h
    obtain ⟨top, rest, htop, hhash⟩ := run_p2sh_ok hnext hexec h
    rw [hstack] at htop
    cases htop
    exact ⟨byte, element, rfl, hpushed, hhash⟩

end Machine

/-- An output that pays to a script is spent by an unlocking script that only pushes if it ends with the
push of a script that has the hash: that script is redeemed. Otherwise, the last command is an opcode that
pushes an element with the hash, or a witness program that was pushed before it has been expanded, so that
the comparison with the hash is not the end any more. -/
theorem verifyScript_p2sh_ok {flags : Flags} {checker : Checker} {sighash : Digest 32}
    {scriptSig : Script} {hash : Digest 20} {witness : List Bytes} (hflag : flags.p2sh)
    (hpush : scriptSig.isPushOnly)
    (h : verifyScript flags checker sighash scriptSig (Script.p2sh hash) witness = .ok ()) :
    ∃ (args : Script) (last : Command), scriptSig = args ++ [last] ∧
      ((∃ body script next, last = .push body ∧ hash160 body = hash ∧
          Script.parseRaw body = .ok script ∧
          Machine.after? { flags, checker, sighash } scriptSig.length
            (.start {} (scriptSig ++ Script.p2sh hash) witness) = some next ∧
          script.map .command <+: next.pending ∧
          .redeemed hash script ∈
            (verify { flags, checker, sighash } scriptSig (Script.p2sh hash) witness).events) ∨
        (∃ byte element, last = .opcode byte ∧
          last.pushed { flags, checker, sighash } = .ok element ∧ hash160 element = hash) ∨
        flags.witness ∧ ∃ m behind,
          Machine.after? { flags, checker, sighash } args.length
            (.start {} (scriptSig ++ Script.p2sh hash) witness) = some m ∧
          m.pending = (last :: Script.p2sh hash).map .command ++ behind ∧ behind ≠ [] ∧
          args.ExpandedIn m.events) := by
  obtain ⟨final, hrun, hevents⟩ := verifyScript_ok h
  rcases List.eq_nil_or_concat scriptSig with rfl | ⟨args, last, rfl⟩
  · obtain ⟨top, rest, hstack, -⟩ := Machine.run_p2sh_ok rfl rfl hrun
    cases hstack
  · rw [List.concat_eq_append] at *
    refine ⟨args, last, rfl, ?_⟩
    have hpending : (Machine.start {} (args ++ [last] ++ Script.p2sh hash) witness).pending =
        args.map .command ++ ((last :: Script.p2sh hash).map .command ++ []) := by
      simp [Machine.start]
    have hlong : Script.Blocks (last :: Script.p2sh hash) :=
      Script.blocks_of_length (by simp [Script.p2sh])
    obtain ⟨m, behind, hafter, hrun, hp, hcases⟩ := Machine.after?_of_run hlong hpending hrun
    have hlast : last.isPush := by
      simp only [Script.isPushOnly, List.all_append, List.all_cons, Bool.and_eq_true] at hpush
      exact hpush.2.1
    -- The rule applies to the last push if the comparison is still all that is behind it.
    by_cases hbehind : behind = []
    · rw [hbehind, List.append_nil] at hp
      rcases Machine.redeemed_or_revealed_of_run hflag hlast hp hrun with
        ⟨body, script, next, hbody, hhash, hparse, hnext, hscheduled, hevent⟩ | hrevealed
      · refine .inl ⟨body, script, next, hbody, hhash, hparse, ?_, hscheduled, hevents hevent⟩
        rw [List.length_append, Machine.after?_add hafter]
        exact hnext
      · exact .inr (.inl hrevealed)
    · refine .inr (.inr ?_)
      rcases hcases with ⟨hnil, -⟩ | ⟨hwitness, -, hexpanded⟩
      · exact absurd hnil hbehind
      · exact ⟨hwitness, m, behind, hafter, hp, hbehind, hexpanded⟩

/-- The script that compares an element with itself is redeemed. But spends are also accepted in the two
other cases, and no script is redeemed then: an opcode pushes the element with the hash, or a witness
script runs behind the comparison. -/
theorem verifyScript_p2sh_ok_redeemed :
    let spend (scriptSig : Script) (hash : Digest 20) (witness : List Bytes) :=
      verify { sighash := ⟨List.replicate 32 0, rfl⟩ } scriptSig (Script.p2sh hash) witness
    .redeemed (hash160 [0x76, 0x87]) [.ofOpcode .opDup, .ofOpcode .opEqual] ∈
        (spend [.push [0x2a], .push [0x76, 0x87]] (hash160 [0x76, 0x87]) []).events ∧
      ((spend [.ofOpcode .op1] (hash160 [0x01]) []).result = .ok () ∧
        ∀ hash script, .redeemed hash script ∉
          (spend [.ofOpcode .op1] (hash160 [0x01]) []).events) ∧
      (spend [.ofOpcode .op0, .push (sha256 [0x51]).bytes, .push [0x00]]
          ⟨List.replicate 20 0x11, rfl⟩ [[0x51]]).result = .ok () ∧
        ∀ hash script, .redeemed hash script ∉
          (spend [.ofOpcode .op0, .push (sha256 [0x51]).bytes, .push [0x00]]
            ⟨List.replicate 20 0x11, rfl⟩ [[0x51]]).events := by
  intro spend
  let unredeemed : Event → Bool := fun event => !(event matches .redeemed _ _)
  refine ⟨?_, ?_, ?_⟩
  · have h : verifyScript .standard .rejecting ⟨List.replicate 32 0, rfl⟩
        [.push [0x2a], .push [0x76, 0x87]] (Script.p2sh (hash160 [0x76, 0x87])) [] = .ok () :=
      verifyScript_of_runIn 8 rfl (by decide) (by decide +kernel)
    have hparse : Script.parseRaw [0x76, 0x87] = .ok [.ofOpcode .opDup, .ofOpcode .opEqual] :=
      Script.parseRaw_of_toOption (by decide +kernel)
    obtain ⟨args, last, hscript, hcases⟩ := verifyScript_p2sh_ok rfl rfl h
    have hsplit : [Command.push [0x2a]] ++ [.push [0x76, 0x87]] = args ++ [last] := hscript
    obtain ⟨rfl, hlast⟩ := List.append_inj' hsplit rfl
    cases hlast
    rcases hcases with ⟨body, script, next, hbody, -, hparsed, -, -, hevent⟩ | hrevealed |
      ⟨-, m, behind, -, -, -, hexpanded⟩
    · cases hbody
      rw [hparse] at hparsed
      cases hparsed
      exact hevent
    · obtain ⟨byte, element, hbyte, -⟩ := hrevealed
      cases hbyte
    · obtain ⟨data, program, hdata, hprogram, -⟩ := hexpanded
      cases List.mem_singleton.1 hdata
      cases hprogram
  · have h : verifyScript .standard .rejecting ⟨List.replicate 32 0, rfl⟩ [.ofOpcode .op1]
        (Script.p2sh (hash160 [0x01])) [] = .ok () :=
      verifyScript_of_runIn 5 rfl (by decide) (by decide +kernel)
    refine ⟨h, ?_⟩
    intro hash script hevent
    have hall := forall_events_of_after? (p := unredeemed) 4 h (by decide +kernel)
    exact Bool.false_ne_true (hall _ hevent)
  · have h : verifyScript .standard .rejecting ⟨List.replicate 32 0, rfl⟩
        [.ofOpcode .op0, .push (sha256 [0x51]).bytes, .push [0x00]]
        (Script.p2sh ⟨List.replicate 20 0x11, rfl⟩) [[0x51]] = .ok () :=
      verifyScript_of_runIn 8 rfl (by decide) (by decide +kernel)
    refine ⟨h, ?_⟩
    intro hash script hevent
    have hall := forall_events_of_after? (p := unredeemed) 7 h (by decide +kernel)
    exact Bool.false_ne_true (hall _ hevent)

end CoinScript
