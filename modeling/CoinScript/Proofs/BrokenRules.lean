import CoinScript.Proofs.Contracts

/-!
# Only rules that are switched on are broken

The code of a spend that is refused names a rule, and that rule is switched on by the flags. Nothing
but an injected script that cannot be read is an unknown error.
-/

namespace CoinScript

namespace EvalError

/-- The rule that is broken is switched on. An unknown error is one of a script that cannot be read. -/
def IsDue (flags : Flags) (e : EvalError) : Prop :=
  e.code.isEnabled flags ∧
    (e.code = .unknownError → ∃ body error, Script.parseRaw body = .error error ∧
      e = .injectedScript error)

theorem isDue_of_known {flags : Flags} {e : EvalError} (hrule : e.code.isEnabled flags)
    (hknown : e.code ≠ .unknownError) : e.IsDue flags :=
  ⟨hrule, fun h => absurd h hknown⟩

/-- Rules that do not change the program are no rules on scripts to be read. -/
theorem isDue_of_fixed {flags : Flags} {e : EvalError} (hrule : e.code.isEnabled flags.fixed) :
    e.IsDue flags :=
  isDue_of_known (ResultCode.isEnabled_of_fixed hrule) (ResultCode.ne_unknownError_of_fixed hrule)

end EvalError

/-- Failures are due to rules that are switched on. -/
def Contract.blame (flags : Flags) : Contract where
  onOk _ _ := True
  onError e _ _ := e.IsDue flags
  refl _ := trivial
  trans _ _ := trivial
  trans_error _ h := h

namespace Contract

open Machine

variable {α : Type} {config : Config}

theorem blame_act {credit : Nat} {rest : α → Nat} {x : Action α}
    (h : x.Pays config.toEnv credit rest) : (blame config.flags).Holds (act x) :=
  holds_act h (fun _ => trivial) fun _ hrule => EvalError.isDue_of_fixed hrule

theorem blame_reads (hflag : config.flags.p2sh ∨ config.flags.witness) (body : Bytes)
    (event : Script → Event) : (blame config.flags).Holds (reads body event) := by
  refine holds_bind (fun m => ?_) fun script => holds_bind (fun m => trivial) fun _ => holds_pure _
  obtain ⟨pool, hparsed⟩ := parseInjected_eq body m
  rw [hparsed]
  cases hbody : Script.parseRaw body with
  | ok script => trivial
  | error error =>
    refine ⟨?_, fun _ => ⟨body, error, hbody, rfl⟩⟩
    simpa [EvalError.code, ResultCode.isEnabled] using hflag

theorem blame_covers (config : Config) : (blame config.flags).Covers config where
  refused _ hrule hknown := EvalError.isDue_of_known hrule hknown
  restacked _ _ := trivial
  rearranged _ _ _ _ := trivial
  reported _ _ _ := trivial
  read hflag body event _ := blame_reads hflag body event
  charged := blame_act (Action.pays_charge 1 : Action.Pays config.toEnv 0 _ _)
  executed _ := holds_executed blame_act _ _

end Contract

/-- A failure of an evaluation is due to a rule that is switched on. -/
theorem isDue_of_evaluate {config : Config} {script : Script} {witness : List Bytes} {e : EvalError}
    (h : (evaluate config script witness).result = .error e) : e.IsDue config.flags := by
  have hmet := (Contract.blame_covers config).evaluateWith script witness .empty
  unfold evaluate at h
  rw [Contract.MetBy, h] at hmet
  exact hmet

section Spending

variable {flags : Flags} {checker : Checker} {sighash : Digest 32} {scriptSig scriptPubKey : Script}
  {witness : List Bytes} {code : ResultCode}

/-- A spend is refused because the unlocking script does not only push, or its evaluation fails. -/
theorem verifyScript_error
    (h : verifyScript flags checker sighash scriptSig scriptPubKey witness = .error code) :
    (flags.sigPushOnly && !scriptSig.isPushOnly) = true ∧ code = .sigPushOnly ∨
      (flags.sigPushOnly && !scriptSig.isPushOnly) = false ∧ ∃ e : EvalError, e.code = code ∧
        e.IsDue flags ∧
        .failed e ∈ (verify { flags, checker, sighash } scriptSig scriptPubKey witness).events := by
  unfold verifyScript at h
  unfold verify at h ⊢
  split at h
  · rename_i hpush
    cases h
    exact .inl ⟨hpush, rfl⟩
  · rename_i hpush
    refine .inr ⟨by simpa using hpush, ?_⟩
    rw [if_neg hpush]
    simp only at h ⊢
    split at h
    · cases h
    · rename_i e he
      cases h
      refine ⟨e, rfl, isDue_of_evaluate he, ?_⟩
      simp [Outcome.events, he]

/-- The rule that a spend breaks is switched on. -/
theorem isEnabled_of_verifyScript
    (h : verifyScript flags checker sighash scriptSig scriptPubKey witness = .error code) :
    code.isEnabled flags = true := by
  rcases verifyScript_error h with ⟨hpush, rfl⟩ | ⟨-, e, rfl, hdue, -⟩
  · exact (Bool.and_eq_true_iff.1 hpush).1
  · exact hdue.1

end Spending

/-- The code of a spend that is refused is never success, and names a rule that the flags switch on.
That an unlocking script does not only push is reported if and only if it does not and the flags demand
it. An unknown error is reported only if an injected script could not be read. -/
theorem verifyScript_error_enabled (flags : Flags) (checker : Checker) (sighash : Digest 32)
    (scriptSig scriptPubKey : Script) (witness : List Bytes) :
    verifyScript flags checker sighash scriptSig scriptPubKey witness ≠ .error .ok ∧
      (verifyScript flags checker sighash scriptSig scriptPubKey witness = .error .sigPushOnly ↔
        flags.sigPushOnly = true ∧ scriptSig.isPushOnly = false) ∧
      (∀ code, verifyScript flags checker sighash scriptSig scriptPubKey witness = .error code →
        code.isEnabled flags = true) ∧
      (verifyScript flags checker sighash scriptSig scriptPubKey witness = .error .unknownError →
        ∃ body error, Script.parseRaw body = .error error ∧ Event.failed (.injectedScript error) ∈
          (verify { flags, checker, sighash } scriptSig scriptPubKey witness).events) := by
  refine ⟨fun h => ?_, ⟨fun h => ?_, fun ⟨hflag, hpush⟩ => ?_⟩, fun code h => ?_, fun h => ?_⟩
  · cases isEnabled_of_verifyScript h
  · rcases verifyScript_error h with ⟨hpush, -⟩ | ⟨-, e, he, -, -⟩
    · simpa using hpush
    · exact absurd he e.code_ne.2
  · rw [verifyScript_eq, hflag, hpush]
    rfl
  · exact isEnabled_of_verifyScript h
  · rcases verifyScript_error h with ⟨-, hcode⟩ | ⟨-, e, he, hdue, hevent⟩
    · cases hcode
    · obtain ⟨body, error, hparse, rfl⟩ := hdue.2 he
      exact ⟨body, error, hparse, hevent⟩

end CoinScript
