import CoinScript.Proofs.Redemption
import CoinScript.Proofs.Resources

/-!
# Forbidden commands

Disabled opcodes, two reserved ones and pushes that are too large fail wherever they stand. No command
is lost on the way to the end of an evaluation, except for the comparison with a hash that a redeemed
script takes the place of. So if an evaluation succeeds, no script that took part in it has a forbidden
command, not even where it is not executed, and there were not too many counted opcodes.
-/

namespace CoinScript

/-- Whether a command fails wherever it stands. -/
def Command.isForbidden : Command → Bool
  | .push data => Script.maxElementSize < data.length
  | .opcode byte =>
    Opcode.isDisabledByte byte || byte == Opcode.opVerIf.byte || byte == Opcode.opVerNotIf.byte

/-- The script from the stack or from the witness that an event says has been scheduled. -/
def Event.injected? : Event → Option Script
  | .redeemed _ script => some script
  | .expandedScript _ _ script => some script
  | _ => none

theorem Command.isForbidden_opcode (byte : UInt8) :
    (Command.opcode byte).isForbidden = (Machine.forbidden? byte).isSome := by
  unfold Machine.forbidden?
  simp only [isForbidden]
  cases Opcode.isDisabledByte byte with
  | true => rfl
  | false =>
    simp only [Bool.false_or, Bool.false_eq_true, if_false]
    split
    · rename_i hreserved
      simpa using hreserved
    · rename_i hother
      simpa using hother

/-- The comparison with a hash is not forbidden. -/
theorem Script.not_isForbidden_p2sh (hash : Digest 20) :
    ∀ command ∈ Script.p2sh hash, command.isForbidden = false := by
  intro command hcommand
  simp only [Script.p2sh, List.mem_cons, List.not_mem_nil, or_false] at hcommand
  rcases hcommand with rfl | rfl | rfl
  · decide +kernel
  · simp [Command.isForbidden, hash.length_bytes, Script.maxElementSize]
  · decide +kernel

namespace Machine

variable {config : Config} {env : Env} {m m' : Machine} {entry : Entry} {rest : List Entry}

/-! ## Single steps -/

theorem not_isForbidden_of_step {command : Command}
    (hsize : config.limits.maxElementSize ≤ Script.maxElementSize)
    (h : step config (.command command) m = .ok () m') : command.isForbidden = false := by
  obtain ⟨hrun, -⟩ := step_ok h
  cases command with
  | push data =>
    obtain ⟨hdata, -⟩ := pushData_ok hrun
    exact decide_eq_false (Nat.not_lt.2 (Nat.le_trans hdata hsize))
  | opcode byte =>
    obtain ⟨hallowed, -⟩ := runOpcode_ok hrun
    rw [Command.isForbidden_opcode, hallowed]
    rfl

/-- A push leaves what is pending and may put something behind it, unless a script is redeemed. -/
theorem pending_of_pushData {scripted : Bool} {data : Bytes}
    (h : pushData env scripted data m = .ok () m') :
    m.pending <+: m'.pending ∨
      env.flags.p2sh ∧ ∃ hash, m.pending = (Script.p2sh hash).map .command := by
  obtain ⟨-, ⟨-, rfl⟩ | ⟨-, m₁, hredeem, hexpand⟩⟩ := pushData_ok h
  · exact .inl List.prefix_rfl
  · have hkept : m₁.pending <+: m'.pending := by
      rcases hexpand with ⟨-, hexpanded⟩ | ⟨-, rfl⟩
      · exact hexpanded.appends.1
      · exact List.prefix_rfl
    rcases hredeem with ⟨hflag, hredeem⟩ | ⟨-, rfl⟩
    · cases hredeem with
      | nothing => exact .inl hkept
      | script hpending => exact .inr ⟨hflag, _, pendingHash?_eq_some_iff.1 hpending⟩
    · exact .inl hkept

/-- No step loses anything that is pending, except for the comparison that a push redeems. -/
theorem pending_of_step (h : step config entry m = .ok () m') :
    m.pending <+: m'.pending ∨ config.flags.p2sh ∧ entry.isCounted = false ∧
      ∃ hash, m.pending = (Script.p2sh hash).map .command := by
  obtain ⟨hrun, -⟩ := step_ok h
  match entry with
  | .command (.push data) => exact (pending_of_pushData hrun).imp_right fun h => ⟨h.1, rfl, h.2⟩
  | .command (.opcode byte) =>
    obtain ⟨hpending, -⟩ := runOpcode_spends hrun
    left
    rw [hpending]
    exact List.prefix_rfl
  | .witness data => exact (pending_of_pushData hrun).imp_right fun h => ⟨h.1, rfl, h.2⟩

/-- What is reported of scheduled scripts is true: their commands are pending. -/
def Schedules (m m' : Machine) : Prop :=
  ∀ event ∈ m'.events, event ∈ m.events ∨
    ∀ script, event.injected? = some script → script.map .command ⊆ m'.pending

theorem schedules_of_redeemed (h : Redeemed m m') : Schedules m m' := by
  cases h with
  | nothing => exact fun _ hevent => .inl hevent
  | script =>
    intro event hevent
    rcases List.mem_cons.1 hevent with rfl | hold
    · right
      rintro _ ⟨⟩
      exact List.Subset.refl _
    · exact .inl hold

theorem schedules_of_expanded (h : Expanded m m') : Schedules m m' := by
  cases h with
  | nothing => exact fun _ hevent => .inl hevent
  | key =>
    intro event hevent
    rcases List.mem_cons.1 hevent with rfl | hold
    · right
      rintro _ ⟨⟩
    · exact .inl hold
  | @script hash elements body script =>
    intro event hevent
    rcases List.mem_cons.1 hevent with rfl | hold
    · right
      rintro _ ⟨⟩
      have hbehind := List.subset_append_right (elements.map Entry.witness) (script.map Entry.command)
      exact List.Subset.trans hbehind (List.subset_append_right _ _)
    · exact .inl hold

theorem schedules_of_pushData {scripted : Bool} {data : Bytes}
    (h : pushData env scripted data m = .ok () m') : Schedules m m' := by
  obtain ⟨-, ⟨-, rfl⟩ | ⟨-, m₁, hredeem, hexpand⟩⟩ := pushData_ok h
  · exact fun _ hevent => .inl hevent
  · have hfirst : Schedules (m.pushed data) m₁ := by
      rcases hredeem with ⟨-, hredeem⟩ | ⟨-, rfl⟩
      · exact schedules_of_redeemed hredeem
      · exact fun _ hevent => .inl hevent
    intro event hevent
    rcases hexpand with ⟨-, hexpanded⟩ | ⟨-, rfl⟩
    · rcases schedules_of_expanded hexpanded event hevent with hbefore | hscheduled
      · refine (hfirst event hbefore).imp_right fun hscheduled script hscript => ?_
        exact List.Subset.trans (hscheduled script hscript) hexpanded.appends.1.subset
      · exact .inr hscheduled
    · exact hfirst event hevent

theorem schedules_of_step (h : step config entry m = .ok () m') : Schedules m m' := by
  obtain ⟨hrun, -⟩ := step_ok h
  have hentry : (entryEvent m.frame.stack.length entry).injected? = none := by
    cases entry <;> rfl
  have hreported : Schedules (m.reported (entryEvent m.frame.stack.length entry)) m' := by
    match entry with
    | .command (.push data) => exact schedules_of_pushData hrun
    | .command (.opcode byte) =>
      obtain ⟨-, count, -, hdispatch⟩ := runOpcode_ok hrun
      rw [(dispatch_ok hdispatch).1]
      exact fun _ hevent => .inl hevent
    | .witness data => exact schedules_of_pushData hrun
  intro event hevent
  rcases hreported event hevent with hbefore | hscheduled
  · rcases List.mem_cons.1 hbefore with rfl | hold
    · right
      intro script hscript
      rw [hentry] at hscript
      cases hscript
    · exact .inl hold
  · exact .inr hscheduled

/-! ## Whole runs -/

/-- Every command that is pending in a run that succeeds is run, skipped or part of the comparison that
a redeemed script replaces. None of these can be forbidden. -/
theorem not_isForbidden_of_run (hsize : config.limits.maxElementSize ≤ Script.maxElementSize)
    (h : m.run config = .ok () m') :
    ∀ command, .command command ∈ m.pending → command.isForbidden = false := by
  induction m using Machine.run.induct config with
  | case1 m hnil =>
    intro command hcommand
    rw [hnil] at hcommand
    cases hcommand
  | case2 m entry rest hp e next hstep =>
    rw [run_of_cons hp, hstep] at h
    cases h
  | case3 m entry rest hp _ next hstep ih =>
    rw [run_of_cons hp, hstep] at h
    intro command hcommand
    rw [hp] at hcommand
    rcases List.mem_cons.1 hcommand with rfl | hbehind
    · exact not_isForbidden_of_step hsize hstep
    · rcases pending_of_step hstep with hkept | ⟨-, -, hash, hlost⟩
      · exact ih h command (hkept.subset hbehind)
      · rw [show rest = _ from hlost] at hbehind
        obtain ⟨found, hfound, hsame⟩ := List.mem_map.1 hbehind
        cases hsame
        exact Script.not_isForbidden_p2sh hash command hfound

theorem countP_p2sh (hash : Digest 20) :
    ((Script.p2sh hash).map Entry.command).countP Entry.isCounted = 2 := rfl

/-- The counted opcodes that are pending in a run that succeeds use up operations, except for the two of
a comparison that a redeemed script replaces. -/
theorem counted_of_run (hword : config.limits.maxStackSize < 2 ^ 64) (hm : m.InLimits config.limits)
    (h : m.run config = .ok () m') :
    m.pending.countP Entry.isCounted + m.frame.opCount ≤
      config.limits.maxOps + if config.flags.p2sh then 2 else 0 := by
  induction m using Machine.run.induct config with
  | case1 m hnil =>
    have hops := hm.opCount_le
    rw [hnil, List.countP_nil]
    omega
  | case2 m entry rest hp e next hstep =>
    rw [run_of_cons hp, hstep] at h
    cases h
  | case3 m entry rest hp _ next hstep ih =>
    rw [run_of_cons hp, hstep] at h
    obtain ⟨hnext, hused⟩ := inLimits_of_step hword hm hp hstep
    have hfirst : m.pending.countP Entry.isCounted =
        rest.countP Entry.isCounted + entry.isCounted.toNat := by
      rw [hp, List.countP_cons]
      cases entry.isCounted <;> rfl
    rcases pending_of_step hstep with hkept | ⟨hflag, hcounted, hash, hlost⟩
    · have hothers : rest.countP Entry.isCounted ≤ next.pending.countP Entry.isCounted :=
        hkept.sublist.countP_le
      have hbound := ih hnext h
      omega
    -- The script that takes the place of the comparison does not matter for the bound: nothing else
    -- was pending, so these two opcodes are all that goes uncounted, however the run goes on.
    · have htwo : rest.countP Entry.isCounted = 2 := by
        rw [show rest = _ from hlost, countP_p2sh]
      have hops := hm.opCount_le
      rw [hfirst, htwo, hcounted, hflag, if_pos rfl]
      simp only [Bool.toNat_false]
      omega

/-- Scripts that are scheduled in a run that succeeds are pending then, so they have no forbidden
command. -/
theorem injected_of_run (hsize : config.limits.maxElementSize ≤ Script.maxElementSize)
    (h : m.run config = .ok () m') :
    ∀ event ∈ m'.events, event ∈ m.events ∨ ∀ script, event.injected? = some script →
      ∀ command ∈ script, command.isForbidden = false := by
  induction m using Machine.run.induct config with
  | case1 m hnil =>
    rw [run_of_nil hnil] at h
    obtain ⟨rfl, -⟩ := finish_ok h
    exact fun _ hevent => .inl hevent
  | case2 m entry rest hp e next hstep =>
    rw [run_of_cons hp, hstep] at h
    cases h
  | case3 m entry rest hp _ next hstep ih =>
    rw [run_of_cons hp, hstep] at h
    intro event hevent
    rcases ih h event hevent with hbefore | hallowed
    -- What this step has scheduled is pending in the rest of the run, which succeeds.
    · refine (schedules_of_step hstep event hbefore).imp_right fun hscheduled => ?_
      intro script hscript command hcommand
      have hpending := hscheduled script hscript (List.mem_map_of_mem hcommand)
      exact not_isForbidden_of_run hsize h command hpending
    · exact .inr hallowed

end Machine

/-- If a spend is accepted, neither the unlocking nor the locking script has a command that is forbidden,
executed or not. There are at most 201 counted opcodes in the two, or 203 if scripts can be given by
their hash. No script that was redeemed or taken from the witness has a forbidden command either. -/
theorem verifyScript_ok_allowed {flags : Flags} {checker : Checker} {sighash : Digest 32}
    {scriptSig scriptPubKey : Script} {witness : List Bytes}
    (h : verifyScript flags checker sighash scriptSig scriptPubKey witness = .ok ()) :
    (∀ command ∈ scriptSig ++ scriptPubKey, command.isForbidden = false) ∧
      ((scriptSig ++ scriptPubKey).map Entry.command).countP Entry.isCounted ≤
        (if flags.p2sh then 203 else 201) ∧
      ∀ event ∈ (verify { flags, checker, sighash } scriptSig scriptPubKey witness).events,
        ∀ script, event.injected? = some script →
          ∀ command ∈ script, command.isForbidden = false := by
  obtain ⟨m, hrun, hevents⟩ := verifyScript_events h
  have hsize : ({} : Limits).maxElementSize ≤ Script.maxElementSize := Nat.le_refl _
  refine ⟨?_, ?_, ?_⟩
  · intro command hcommand
    exact Machine.not_isForbidden_of_run hsize hrun command (List.mem_map_of_mem hcommand)
  · have hstart : (Machine.start {} (scriptSig ++ scriptPubKey) witness).InLimits {} :=
      Machine.inLimits_start (length_of_verifyScript h)
    have hword : ({} : Limits).maxStackSize < 2 ^ 64 := by decide
    have hcounted := Machine.counted_of_run hword hstart hrun
    cases hflag : flags.p2sh <;> simp only [hflag] at hcounted <;> exact hcounted
  · intro event hevent
    rw [hevents, List.mem_reverse] at hevent
    rcases List.mem_cons.1 hevent with rfl | hreported
    · rintro _ ⟨⟩
    · rcases Machine.injected_of_run hsize hrun event hreported with hbefore | hallowed
      · cases hbefore
      · exact hallowed

/-- The script that compares an element with itself is redeemed behind a branch that is skipped. -/
theorem verifyScript_ok_allowed_skipped :
    verifyScript { p2sh := true } .rejecting (sha256 [])
        [.ofOpcode .op0, .ofOpcode .opIf, .ofOpcode .opReturn, .ofOpcode .opEndIf, .push [0x2a],
          .push [0x76, 0x87]]
        (Script.p2sh (hash160 [0x76, 0x87])) [] = .ok () ∧
      ∀ command ∈ [.ofOpcode .op0, .ofOpcode .opIf, .ofOpcode .opReturn, .ofOpcode .opEndIf,
          .push [0x2a], .push [0x76, 0x87]] ++ Script.p2sh (hash160 [0x76, 0x87]),
        command.isForbidden = false := by
  have h : verifyScript { p2sh := true } .rejecting (sha256 [])
      [.ofOpcode .op0, .ofOpcode .opIf, .ofOpcode .opReturn, .ofOpcode .opEndIf, .push [0x2a],
        .push [0x76, 0x87]]
      (Script.p2sh (hash160 [0x76, 0x87])) [] = .ok () :=
    verifyScript_of_runIn 10 rfl (by decide) (by decide +kernel)
  exact ⟨h, (verifyScript_ok_allowed h).1⟩

end CoinScript
