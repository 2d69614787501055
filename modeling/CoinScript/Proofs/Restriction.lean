import CoinScript.Proofs.Alike

/-!
# Stricter flags accept less

Apart from the two rules that change the program, a flag only adds something that is demanded. So an
output that can be spent under some flags can be spent under fewer of them, with the same scripts and
the same witness. There is one exception: a lock time that is not compared is a no-operation, and these
can be refused.
-/

namespace CoinScript

/-- Fewer flags demand no more, if they agree on the rules that change the program and do not turn lock
times into no-operations that are refused. -/
theorem Flags.loosens_of_subset {flags stronger : Flags}
    (hsub : ∀ flag, flags.has flag → stronger.has flag) (hp2sh : flags.p2sh = stronger.p2sh)
    (hwitness : flags.witness = stronger.witness)
    (hnop : flags.discourageUpgradableNops = false ∨
      flags.checkLockTimeVerify = stronger.checkLockTimeVerify) :
    flags.Loosens False stronger where
  strictEnc := hsub .strictEnc
  lowS := hsub .lowS
  nullDummy := hsub .nullDummy
  minimalData := hsub .minimalData
  discourageUpgradableNops := hsub .discourageUpgradableNops
  checkLockTimeVerify := hsub .checkLockTimeVerify
  nop_or_same := hnop
  eq_of_strict := False.elim
  p2sh_eq := hp2sh
  witness_eq := hwitness

/-- Restrictive flags only restrict: whatever can be spent under them can be spent without them. -/
theorem verifyScript_ok_of_fewer_flags {flags stronger : Flags}
    (hsub : ∀ flag, flags.has flag → stronger.has flag) (hp2sh : flags.p2sh = stronger.p2sh)
    (hwitness : flags.witness = stronger.witness)
    (hnop : flags.discourageUpgradableNops = false ∨
      flags.checkLockTimeVerify = stronger.checkLockTimeVerify)
    {checker : Checker} {sighash : Digest 32} {scriptSig scriptPubKey : Script} {witness : List Bytes}
    (hok : verifyScript stronger checker sighash scriptSig scriptPubKey witness = .ok ()) :
    verifyScript flags checker sighash scriptSig scriptPubKey witness = .ok () := by
  have hloosens := Flags.loosens_of_subset hsub hp2sh hwitness hnop
  rw [verifyScript_eq] at hok ⊢
  split at hok
  · cases hok
  · rename_i hpush
    -- The unlocking script is looked at before anything runs, so this flag is not the machine's.
    have hpush' : ¬(flags.sigPushOnly && !scriptSig.isPushOnly) = true := by
      simp only [Bool.and_eq_true, not_and] at hpush ⊢
      exact fun hflag => hpush (hsub .sigPushOnly hflag)
    rw [if_neg hpush']
    split at hok
    · cases hok
    · rename_i hsize
      rw [if_neg hsize]
      exact Machine.verdict_ok_of_loosens hloosens hok

/-- An output that is locked until a time can be spent whether or not the time is compared. -/
theorem verifyScript_ok_without_lockTime :
    verifyScript {} ⟨fun _ _ _ => false, fun _ => true⟩ (sha256 []) [.ofOpcode .op1]
      [.ofOpcode .opCheckLockTimeVerify] [] = .ok () := by
  have hok : verifyScript { checkLockTimeVerify := true, sigPushOnly := true }
      ⟨fun _ _ _ => false, fun _ => true⟩ (sha256 []) [.ofOpcode .op1]
      [.ofOpcode .opCheckLockTimeVerify] [] = .ok () :=
    verifyScript_of_runIn 3 rfl (by decide) (by decide +kernel)
  refine verifyScript_ok_of_fewer_flags ?_ ?_ ?_ (.inl rfl) hok
  · intro flag
    cases flag <;> decide
  · rfl
  · rfl

end CoinScript
