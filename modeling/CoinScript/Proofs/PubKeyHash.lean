import CoinScript.Proofs.Unlocking

/-!
# Payments to a key

An output that pays to the hash of a key is meant to be spent with a signature under that key. The
unlocking script runs on the same machine before the locking script, so it can leave conditionals open
and can have a witness program run after the locking script. The main result is that a spend needs a
signature that the checker accepts under a key with the hash, unless the unlocking script has pushed a
witness program that was expanded and something is pending behind the locking script when that is next.
-/

namespace CoinScript

/-- The locking scripts for these hashes behind one another, as witness programs put them. -/
def Script.checks (hashes : List (Digest 20)) : Script := hashes.flatMap Script.p2pkh

namespace Machine

variable {env : Env} {m m' : Machine}

/-! ## Checks of signatures -/

/-- The commands of the locking script succeed only on the key with the hash above a signature. They
leave on the stack whether the checker accepts it. -/
theorem run_p2pkh_ok {hash : Digest 20} {after : List Entry}
    (hp : m.pending = (Script.p2pkh hash).map .command ++ after) (hexec : m.isExecuting)
    (h : m.run { toEnv := env } = .ok () m') :
    ∃ (next : Machine) (sig key : Bytes) (stack : List Bytes),
      m.frame.stack.elements = key :: sig :: stack ∧ hash160 key = hash ∧
      next.pending = after ∧ next.isExecuting ∧
      next.frame.stack.elements =
        Element.ofBool (env.checker.checkSig sig key env.sighash) :: stack ∧
      next.run { toEnv := env } = .ok () m' := by
  -- The five commands in turn: `hp` is what is left of them, `h` the run from there.
  obtain ⟨m₁, _, hp, -, hexec, hrun, h⟩ := run_opcode_ok hp hexec rfl rfl h
  obtain ⟨key, rest, hkey, hdup⟩ := Action.dup_eq_ok hrun
  obtain ⟨m₂, _, hp, -, hexec, hrun, h⟩ := run_opcode_ok hp hexec rfl rfl h
  obtain ⟨top, rest₂, hbefore, hhashed⟩ := Action.hash160_eq_ok hrun
  rw [hdup] at hbefore
  obtain ⟨rfl, rfl⟩ := List.cons.inj hbefore
  have hno : ∀ hash, .command (.ofOpcode .opEqualVerify) :: .command (.ofOpcode .opCheckSig) :: after ≠
      (Script.p2sh hash).map Entry.command := by
    simp [Script.p2sh, Command.ofOpcode, Opcode.byte, Opcode.spelling]
  have hbelow : m₂.frame.stack.elements ≠ [[]] := by simp [hhashed]
  obtain ⟨m₃, hp, hexec, hpushed, h⟩ := run_push_ok hp hexec hno hbelow h
  obtain ⟨m₄, _, hp, -, hexec, hrun, h⟩ := run_opcode_ok hp hexec rfl rfl h
  obtain ⟨x, rest₄, hbefore, hequal⟩ := Action.equalVerify_eq_ok hrun
  rw [hpushed, hhashed] at hbefore
  simp only [List.cons.injEq] at hbefore
  obtain ⟨rfl, hsame, rfl⟩ := hbefore
  obtain ⟨m₅, _, hp, -, hexec, hrun, h⟩ := run_opcode_ok hp hexec rfl rfl h
  obtain ⟨sig, key', rest₅, hbefore, hchecked⟩ := Action.checkSig_eq_ok hrun
  rw [hequal] at hbefore
  obtain ⟨rfl, rfl⟩ := List.cons.inj hbefore
  exact ⟨m₅, sig, key, rest₅, hkey, Digest.ext hsame, hp, hexec, hchecked, h⟩

theorem isStraight_of_p2pkh {hash : Digest 20} {command : Command}
    (h : command ∈ Script.p2pkh hash) : command.isStraight :=
  List.all_eq_true.1 (show (Script.p2pkh hash).all Command.isStraight from rfl) command h

/-- Checks behind one that has failed succeed only on a signature under the empty key, which is what the
failure has left in place of a key. -/
theorem signed_of_failed {hashes : List (Digest 20)} {stack : List Bytes}
    (hp : m.pending = (Script.checks hashes).map .command) (hexec : m.isExecuting)
    (hstack : m.frame.stack.elements = [] :: stack) (h : m.run { toEnv := env } = .ok () m') :
    hash160 [] ∈ hashes ∧ ∃ sig, env.checker.checkSig sig [] env.sighash = true := by
  induction hashes generalizing m stack with
  | nil =>
    rw [run_of_nil hp] at h
    obtain ⟨-, -, top, rest, htop, hsuccess⟩ := finish_ok h
    rw [hstack] at htop
    cases htop
    cases hsuccess
  | cons hash hashes ih =>
    rw [Script.checks, List.flatMap_cons, List.map_append] at hp
    obtain ⟨next, sig, key, rest, hbefore, hkey, hp, hexec, hafter, h⟩ := run_p2pkh_ok hp hexec h
    rw [hstack] at hbefore
    cases hbefore
    cases hsig : env.checker.checkSig sig [] env.sighash with
    | true => exact ⟨hkey ▸ List.mem_cons_self, sig, hsig⟩
    | false =>
      rw [hsig] at hafter
      obtain ⟨hmem, hsigned⟩ := ih hp hexec hafter h
      exact ⟨List.mem_cons_of_mem _ hmem, hsigned⟩

/-- Checks succeed only on a signature under a key with the first hash, or under the empty key. -/
theorem signed_of_checks {hash : Digest 20} {hashes : List (Digest 20)}
    (hp : m.pending = (Script.checks (hash :: hashes)).map .command)
    (h : m.run { toEnv := env } = .ok () m') :
    ∃ sig key, env.checker.checkSig sig key env.sighash = true ∧
      (hash160 key = hash ∨ key = [] ∧ hash160 [] ∈ hashes) := by
  have hexec : m.isExecuting := by
    apply isExecuting_of_run _ hp h
    intro command hmem
    obtain ⟨checked, -, hmem⟩ := List.mem_flatMap.1 hmem
    exact isStraight_of_p2pkh hmem
  rw [Script.checks, List.flatMap_cons, List.map_append] at hp
  obtain ⟨next, sig, key, stack, -, hkey, hp, hexec, hafter, h⟩ := run_p2pkh_ok hp hexec h
  cases hsig : env.checker.checkSig sig key env.sighash with
  | true => exact ⟨sig, key, hsig, .inl hkey⟩
  | false =>
    rw [hsig] at hafter
    obtain ⟨hmem, other, hsigned⟩ := signed_of_failed hp hexec hafter h
    exact ⟨other, [], hsigned, .inr ⟨rfl, hmem⟩⟩

/-! ## Unlocking scripts -/

/-- A run of commands in front of the locking script succeeds only on a signature and the key with the
hash, unless one of the commands pushes a witness program that is expanded and has something run behind
the locking script. -/
theorem signed_or_expanded_of_run {hash : Digest 20} {script : Script}
    (hp : m.pending = (script ++ Script.p2pkh hash).map .command)
    (h : m.run { toEnv := env } = .ok () m') :
    (∃ sig key, hash160 key = hash ∧ env.checker.checkSig sig key env.sighash = true) ∨
      env.flags.witness ∧ ∃ next behind, after? { toEnv := env } script.length m = some next ∧
        next.pending = (Script.p2pkh hash).map .command ++ behind ∧ behind ≠ [] ∧
        script.ExpandedIn next.events := by
  have hlong : (Script.p2pkh hash).Blocks := Script.blocks_of_length (by simp [Script.p2pkh])
  have hpending : m.pending = script.map .command ++ ((Script.p2pkh hash).map .command ++ []) := by
    simp [hp]
  obtain ⟨next, behind, hafter, hrun, hnext, hcases⟩ := after?_of_run hlong hpending h
  by_cases hbehind : behind = []
  · left
    have hchecks : next.pending = (Script.checks [hash]).map .command := by
      simpa [Script.checks, hbehind] using hnext
    obtain ⟨sig, key, hsigned, hkey⟩ := signed_of_checks hchecks hrun
    rcases hkey with hkey | ⟨-, hmem⟩
    · exact ⟨sig, key, hkey, hsigned⟩
    · cases hmem
  · right
    rcases hcases with ⟨hnil, -⟩ | ⟨hflag, -, hexpanded⟩
    · exact absurd hnil hbehind
    · exact ⟨hflag, next, behind, hafter, hnext, hbehind, hexpanded⟩

end Machine

/-- An output that pays to a key is spent only with a signature that the checker accepts under a key with
the hash, unless the unlocking script pushes a witness program that is expanded and has something run
behind the locking script. -/
theorem verifyScript_p2pkh_ok {flags : Flags} {checker : Checker} {sighash : Digest 32}
    {scriptSig : Script} {hash : Digest 20} {witness : List Bytes}
    (h : verifyScript flags checker sighash scriptSig (Script.p2pkh hash) witness = .ok ()) :
    (∃ sig key, hash160 key = hash ∧ checker.checkSig sig key sighash = true) ∨
      flags.witness ∧ ∃ m behind,
        Machine.after? { flags, checker, sighash } scriptSig.length
          (.start {} (scriptSig ++ Script.p2pkh hash) witness) = some m ∧
        m.pending = (Script.p2pkh hash).map .command ++ behind ∧ behind ≠ [] ∧
        scriptSig.ExpandedIn m.events := by
  obtain ⟨m, hrun, -⟩ := verifyScript_ok h
  exact Machine.signed_or_expanded_of_run rfl hrun

/-- A spend with a signature and a key that the checker accepts. -/
theorem verifyScript_p2pkh_ok_signed :
    ∃ sig key, hash160 key = hash160 [0x02] ∧
      Checker.checkSig ⟨fun _ key _ => key = [0x02], fun _ => false⟩ sig key (sha256 []) = true := by
  have h : verifyScript {} ⟨fun _ key _ => key = [0x02], fun _ => false⟩ (sha256 [])
      [.push [0x30], .push [0x02]] (Script.p2pkh (hash160 [0x02])) [] = .ok () :=
    verifyScript_of_runIn 8 rfl (by decide) (by decide +kernel)
  rcases verifyScript_p2pkh_ok h with hsigned | ⟨hflag, -⟩
  · exact hsigned
  · cases hflag

/-- A witness script can close the conditional that the unlocking script opened to skip the locking
script, so no signature is needed. -/
theorem verifyScript_p2pkh_ok_unsigned :
    verifyScript .standard .rejecting ⟨List.replicate 32 0, rfl⟩
        [.ofOpcode .op0, .push (sha256 [0x68, 0x51]).bytes, .ofOpcode .op0, .ofOpcode .opIf]
        (Script.p2pkh ⟨List.replicate 20 0x11, rfl⟩) [[0x68, 0x51]] = .ok () ∧
      ¬∃ sig key, hash160 key = ⟨List.replicate 20 0x11, rfl⟩ ∧
        Checker.rejecting.checkSig sig key ⟨List.replicate 32 0, rfl⟩ = true := by
  refine ⟨verifyScript_of_runIn 12 rfl (by decide) (by decide +kernel), ?_⟩
  rintro ⟨sig, key, -, hsigned⟩
  cases hsigned

end CoinScript
