import CoinScript.Proofs.Pushes

/-!
# Payments to a script

An output that commits to the hash of a script is spent by pushing that script after what it needs.
The main result says that this is the same as running the script on what it needs: the comparison with
the hash leaves no trace.
-/

namespace CoinScript

theorem Script.length_le_weight (script : Script) : script.length ≤ script.weight := by
  induction script with
  | nil => exact Nat.le_refl _
  | cons command script ih =>
    cases command with
    | opcode byte =>
      simp only [List.length_cons, Script.weight, Command.weight]
      omega
    | push data =>
      simp only [List.length_cons, Script.weight, Command.weight]
      omega

/-- A script has no more commands than the body it is read from has bytes. -/
theorem Script.length_of_parseRaw {body : Bytes} {script : Script}
    (h : Script.parseRaw body = .ok script) : script.length ≤ body.length := by
  cases hp : Script.parseRawWith .empty body with
  | mk result pool =>
    rw [Script.parseRaw, hp] at h
    simp only at h
    subst h
    have hweight := Script.weight_of_parseRawWith hp
    exact Nat.le_trans script.length_le_weight hweight

namespace Machine

variable {env : Env} {m : Machine} {body : Bytes} {redeemScript : Script}

theorem act_pop_pushed : act Action.pop (m.pushed body) = .ok body m := by
  have hpop : (m.pushed body).frame.stack.pop = .ok (body, m.frame.stack) := by
    unfold pushed
    rw [Stack.pop_of_cons (Stack.elements_ofList _ _)]
    simp
  simp only [act, Action.pop, Action.take, hpop]
  rfl

/-- A script that has just been pushed is taken off the stack again and runs instead of the comparison
with its hash. -/
theorem redeem_pushed {limits : Limits} (hparse : Script.parseRaw body = .ok redeemScript)
    (hfits : redeemScript.length ≤ limits.maxCommands) :
    ∃ pool events, redeem limits (hash160 body) (m.pushed body) =
      .ok () { m with pending := redeemScript.map .command, pool, events } := by
  let cleared : Machine := { m with pending := [] }
  have hclear : (modify fun m => { m with pending := [] } : Step Unit) (m.pushed body) =
      .ok () (cleared.pushed body) := rfl
  obtain ⟨pool, hinjected⟩ := parseInjected_eq body cleared
  rw [hparse] at hinjected
  let event := Event.redeemed (hash160 body) redeemScript
  have hreport : report event { cleared with pool } =
      .ok () { cleared with pool, events := event :: m.events } := rfl
  refine ⟨pool, event :: m.events, ?_⟩
  unfold redeem
  rw [bind_of_ok hclear, bind_of_ok act_pop_pushed, if_pos rfl, bind_of_ok hinjected,
    bind_of_ok hreport]
  simp only [runNext, cleared, List.length_nil, List.length_map, Nat.zero_add,
    if_neg (Nat.not_lt.2 hfits), List.append_nil]

/-- The push of a script in front of the comparison with its hash, if this is all that is pending. -/
theorem pushData_of_redeem (hflag : env.flags.p2sh) (hexec : m.isExecuting)
    (hpending : m.pending = (Script.p2sh (hash160 body)).map .command)
    (hbody : body.length ≤ env.limits.maxElementSize)
    (hminimal : env.flags.minimalData → Element.needsPush body)
    (hparse : Script.parseRaw body = .ok redeemScript)
    (hfits : redeemScript.length ≤ env.limits.maxCommands)
    (hprogram : env.flags.witness → witnessProgram? m.frame.stack = none)
    (hroom : m.frame.stack.length < m.frame.stack.capacity) :
    ∃ pool events, pushData env true body m =
      .ok () { m with pending := redeemScript.map .command, pool, events } := by
  have hchecked : (true && env.flags.minimalData && !Element.needsPush body) = false := by
    cases hmin : env.flags.minimalData with
    | false => rfl
    | true => simp [hminimal hmin]
  have hhash : (m.pushed body).pendingHash? = some (hash160 body) :=
    pendingHash?_eq_some_iff.2 hpending
  obtain ⟨pool, events, hredeem⟩ := redeem_pushed (m := m) hparse hfits
  have honly : onlyIf env.flags.p2sh (redeemPending env.limits) (m.pushed body) =
      .ok () { m with pending := redeemScript.map .command, pool, events } := by
    rw [onlyIf, if_pos hflag, redeemPending_eq, hhash]
    exact hredeem
  refine ⟨pool, events, ?_⟩
  rw [pushData_eq, if_neg (Nat.not_lt.2 hbody), hexec, if_neg (by simp), hchecked,
    if_neg Bool.false_ne_true, bind_of_ok (act_push_of_room hroom), bind_of_ok honly]
  exact expandWitness_of_none hprogram

/-- If a push of a script and the comparison with its hash are all that is to be run, then the script
runs instead. -/
theorem verdict_of_redeem (hflag : env.flags.p2sh) (hexec : m.isExecuting)
    (hpending : m.pending =
      .command (.push body) :: (Script.p2sh (hash160 body)).map .command)
    (hbody : body.length ≤ env.limits.maxElementSize)
    (hminimal : env.flags.minimalData → Element.needsPush body)
    (hparse : Script.parseRaw body = .ok redeemScript)
    (hfits : redeemScript.length ≤ env.limits.maxCommands)
    (hprogram : env.flags.witness → witnessProgram? m.frame.stack = none)
    (hcapacity : m.frame.stack.capacity = env.limits.maxStackSize)
    (hroom : m.frame.size < env.limits.maxStackSize) :
    m.verdict { toEnv := env } =
      ({ m with pending := redeemScript.map .command } : Machine).verdict { toEnv := env } := by
  let next : Machine := { m with pending := (Script.p2sh (hash160 body)).map .command }
  let event := entryEvent m.frame.stack.length (.command (.push body))
  have hstack : m.frame.stack.length < m.frame.stack.capacity := by
    rw [hcapacity]
    unfold Frame.size at hroom
    omega
  obtain ⟨pool, events, hrun⟩ := pushData_of_redeem (m := next.reported event) hflag hexec rfl hbody
    hminimal hparse hfits hprogram hstack
  have hstep : step { toEnv := env } (.command (.push body)) next = .ok () _ :=
    step_of_ok hrun (Nat.le_of_lt hroom)
  rw [verdict_of_step_ok hpending hstep]
  exact verdict_eq_of_alike ⟨.refl _, Entry.alike_of_eq rfl, rfl, rfl⟩

/-- Nothing is a witness program on a stack without elements of that size. -/
theorem witnessProgram?_of_sizes {elements : List Bytes} {capacity : Nat}
    (h : ∀ data ∈ elements, data.length ≠ 20 ∧ data.length ≠ 32) :
    witnessProgram? (.ofList elements capacity) = none := by
  cases elements with
  | nil => rfl
  | cons data rest => exact witnessProgram?_of_size (h data List.mem_cons_self)

end Machine

/-! ## Spending -/

section Spending

variable {flags : Flags} {checker : Checker} {sighash : Digest 32} {witness : List Bytes}

/-- A spend of an output that pays to a script gives exactly the result of that script, run after the
other pushes of the unlocking script. -/
theorem verifyScript_p2sh {args redeemScript : Script} {body : Bytes}
    (hflag : flags.p2sh) (hpush : args.isPushOnly) (hcount : args.length < 1000)
    (hbody : body.length ≤ 520) (hparse : Script.parseRaw body = .ok redeemScript)
    (hnested : ∀ hash, redeemScript ≠ Script.p2sh hash)
    (hprogram : flags.witness = false ∨ ∀ data, .push data ∈ args →
      data.length ≠ 20 ∧ data.length ≠ 32)
    (hminimal : flags.minimalData = false ∨ Element.needsPush body) :
    verifyScript flags checker sighash (args ++ [.push body]) (Script.p2sh (hash160 body)) witness =
      verifyScript flags checker sighash args redeemScript witness := by
  have hsizes : flags.witness → ∀ data, .push data ∈ args →
      data.length ≠ 20 ∧ data.length ≠ 32 := by
    intro hwitness
    apply hprogram.resolve_left
    simp [hwitness]
  have hneeded : flags.minimalData → Element.needsPush body := by
    intro hflag
    apply hminimal.resolve_left
    simp [hflag]
  have hlength := Script.length_of_parseRaw hparse
  have hlocking : ∀ hash, .push body :: Script.p2sh (hash160 body) ≠ Script.p2sh hash := by
    intro hash
    simp [Script.p2sh]
  rw [verifyScript_append hpush rfl, List.singleton_append,
    verifyScript_of_pushes hpush (Nat.le_of_lt hcount) (by simp [Script.p2sh]) hlocking hsizes,
    verifyScript_of_pushes hpush (Nat.le_of_lt hcount) (by omega) hnested hsizes]
  cases hpushed : args.pushed { flags, checker, sighash } with
  | error e => rfl
  | ok elements =>
    obtain ⟨helements, hmem⟩ := Script.pushed_ok hpush hpushed
    simp only
    apply Machine.verdict_of_redeem hflag rfl rfl hbody hneeded hparse
    · simp only [Script.maxScriptSize]
      omega
    · intro hwitness
      apply Machine.witnessProgram?_of_sizes
      intro data hdata
      simp only [Machine.start, Machine.initial, Frame.new, Stack.new, Stack.elements_ofList,
        List.append_nil, List.mem_reverse] at hdata
      rcases hmem data hdata with hpush | hshort
      · exact hsizes hwitness data hpush
      · omega
    · rfl
    · simp only [Machine.loaded, Machine.start, Machine.initial, Frame.size, Frame.new, Stack.new,
        Stack.length_ofList, Stack.elements_ofList, List.append_nil, List.length_reverse,
        List.length_nil]
      omega

/-- The script that compares an element with itself, given by its hash. Both spends are accepted with an
element, and both fail without one. -/
theorem verifyScript_p2sh_dup_equal :
    let dupEqual : Script := [.ofOpcode .opDup, .ofOpcode .opEqual]
    let spend (scriptSig scriptPubKey : Script) :=
      verifyScript .standard .rejecting (sha256 []) scriptSig scriptPubKey []
    (spend ([.push [0x2a]] ++ [.push [0x76, 0x87]]) (Script.p2sh (hash160 [0x76, 0x87])) = .ok () ∧
        spend [.push [0x2a]] dupEqual = .ok ()) ∧
      spend ([] ++ [.push [0x76, 0x87]]) (Script.p2sh (hash160 [0x76, 0x87])) =
          .error .invalidStackOperation ∧
        spend [] dupEqual = .error .invalidStackOperation := by
  intro dupEqual spend
  have hparse : Script.parseRaw [0x76, 0x87] = .ok dupEqual :=
    Script.parseRaw_of_toOption (by decide +kernel)
  have hnested : ∀ hash, dupEqual ≠ Script.p2sh hash := by
    intro hash
    simp [dupEqual, Script.p2sh]
  have hredeemed {args : Script} (hpush : args.isPushOnly) (hcount : args.length < 1000)
      (hsizes : ∀ data, .push data ∈ args → data.length ≠ 20 ∧ data.length ≠ 32) :
      spend (args ++ [.push [0x76, 0x87]]) (Script.p2sh (hash160 [0x76, 0x87])) =
        spend args dupEqual :=
    verifyScript_p2sh rfl hpush hcount (by decide) hparse hnested (.inr hsizes) (.inl rfl)
  have haccepted : spend [.push [0x2a]] dupEqual = .ok () :=
    verifyScript_of_runIn 4 rfl (by decide) (by decide +kernel)
  have hfailed : spend [] dupEqual = .error .invalidStackOperation :=
    verifyScript_of_runIn 4 rfl (by decide) (by decide +kernel)
  refine ⟨⟨?_, haccepted⟩, ?_, hfailed⟩
  · rw [hredeemed rfl (by decide) (by simp), haccepted]
  · rw [hredeemed rfl (by decide) (by simp), hfailed]

end Spending

end CoinScript
