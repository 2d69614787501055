import CoinScript.Proofs.Success

/-!
# What handlers ask, and why they fail

A handler can ask the checker about signatures and lock times, and it can fail. Questions about
signatures have to be paid for with operations, and they are paid for before they are asked: a handler
starts with a credit of operations that have been used up for questions to come, and what it leaves of
the credit is left to what comes after it. A handler that fails, fails for a rule that is switched on.
-/

namespace CoinScript

/-! ## Questions -/

/-- Whether a question is about a signature. -/
def Query.isSignature : Query → Bool
  | .signature _ _ _ => true
  | .lockTime _ => false

/-- Whether a question is about the digest, unless it is not about a signature. -/
def Query.isOf (sighash : Digest 32) : Query → Bool
  | .signature _ _ digest => digest = sighash
  | .lockTime _ => true

namespace Frame

variable {env : Env} {credit rest last : Nat} {frame frame₁ frame₂ frame₃ : Frame}

/-- How often the checker has been asked about a signature. -/
def checks (frame : Frame) : Nat := frame.asked.countP Query.isSignature

/-- Questions are added and none is taken back. Those about signatures are about the digest. -/
def Asks (sighash : Digest 32) (frame frame' : Frame) : Prop :=
  ∃ more, frame'.asked = more ++ frame.asked ∧ ∀ query ∈ more, query.isOf sighash

theorem Asks.of_eq {sighash : Digest 32} (h : frame₂.asked = frame₁.asked) :
    frame₁.Asks sighash frame₂ :=
  ⟨[], h, by simp⟩

theorem Asks.trans {sighash : Digest 32} (h₁ : frame₁.Asks sighash frame₂)
    (h₂ : frame₂.Asks sighash frame₃) : frame₁.Asks sighash frame₃ := by
  obtain ⟨first, hfirst, hof⟩ := h₁
  obtain ⟨second, hsecond, hof'⟩ := h₂
  refine ⟨second ++ first, ?_, ?_⟩
  · rw [hsecond, hfirst, List.append_assoc]
  · intro query hquery
    rcases List.mem_append.1 hquery with hquery | hquery
    · exact hof' query hquery
    · exact hof query hquery

/-- Between the frames, the questions about signatures have been paid for: with operations used up in
between, or out of the credit, of which `rest` is left. -/
structure Pays (env : Env) (credit rest : Nat) (frame frame' : Frame) : Prop where
  asks : frame.Asks env.sighash frame'
  covered : frame'.checks + rest + frame.opCount ≤ frame.checks + credit + frame'.opCount
  within : frame.opCount ≤ env.limits.maxOps → frame'.opCount ≤ env.limits.maxOps

/-- The same where something fails. The operations used up may be too many then, but those that have
paid for questions were not. -/
structure Halts (env : Env) (credit : Nat) (frame frame' : Frame) : Prop where
  asks : frame.Asks env.sighash frame'
  covered : frame'.checks + frame.opCount ≤ frame.checks + credit + frame'.opCount
  within : frame.opCount ≤ env.limits.maxOps →
    frame'.checks + frame.opCount ≤ frame.checks + credit + env.limits.maxOps

theorem Pays.of_eq (hops : frame₂.opCount = frame₁.opCount) (hasked : frame₂.asked = frame₁.asked)
    (hrest : rest ≤ credit) : frame₁.Pays env credit rest frame₂ := by
  have hchecks : frame₂.checks = frame₁.checks := by rw [checks, checks, hasked]
  refine ⟨.of_eq hasked, ?_, ?_⟩ <;> omega

theorem Pays.refl (frame : Frame) : frame.Pays env credit credit frame :=
  .of_eq rfl rfl (Nat.le_refl _)

theorem Pays.trans (h₁ : frame₁.Pays env credit rest frame₂)
    (h₂ : frame₂.Pays env rest last frame₃) : frame₁.Pays env credit last frame₃ := by
  have hfirst := h₁.covered
  have hsecond := h₂.covered
  exact ⟨h₁.asks.trans h₂.asks, by omega, fun h => h₂.within (h₁.within h)⟩

theorem Pays.halts (h : frame₁.Pays env credit rest frame₂) : frame₁.Halts env credit frame₂ := by
  have hcovered := h.covered
  refine ⟨h.asks, by omega, fun hops => ?_⟩
  have hwithin := h.within hops
  omega

theorem Pays.trans_halts (h₁ : frame₁.Pays env credit rest frame₂)
    (h₂ : frame₂.Halts env rest frame₃) : frame₁.Halts env credit frame₃ := by
  have hfirst := h₁.covered
  have hsecond := h₂.covered
  refine ⟨h₁.asks.trans h₂.asks, by omega, fun hops => ?_⟩
  have hwithin := h₂.within (h₁.within hops)
  omega

end Frame

/-! ## Rules -/

/-- Whether the flags switch on the rule that a code is about. Most rules are basic: they need no flag.
Success is no failure of any rule. -/
def ResultCode.isEnabled (flags : Flags) : ResultCode → Bool
  | .ok => false
  | .sigPushOnly => flags.sigPushOnly
  | .minimalData => flags.minimalData
  | .sigNullDummy => flags.nullDummy
  | .sigHighS => flags.lowS
  | .sigHashType | .pubKeyType => flags.strictEnc
  | .sigDer => flags.strictEnc || flags.lowS
  | .discourageUpgradableNops => flags.discourageUpgradableNops
  | .negativeLockTime | .unsatisfiedLockTime => flags.checkLockTimeVerify
  | .witnessProgramMismatch | .witnessProgramWitnessEmpty => flags.witness
  | .unknownError => flags.p2sh || flags.witness
  | _ => true

/-- The flags without the two rules that change the program. -/
def Flags.fixed (flags : Flags) : Flags := { flags with p2sh := false, witness := false }

theorem ResultCode.isEnabled_of_fixed {flags : Flags} {code : ResultCode}
    (h : code.isEnabled flags.fixed) : code.isEnabled flags := by
  cases code with
  | witnessProgramMismatch => cases h
  | witnessProgramWitnessEmpty => cases h
  | unknownError => cases h
  | _ => exact h

theorem ResultCode.ne_unknownError_of_fixed {flags : Flags} {code : ResultCode}
    (h : code.isEnabled flags.fixed) : code ≠ .unknownError := by
  rintro rfl
  cases h

namespace EvalError

/-- A stack fails for a basic reason. -/
theorem isEnabled_ofStack (flags : Flags) (e : Stack.Error) :
    (ofStack e).code.isEnabled flags := by
  cases e <;> rfl

/-- A check that does not succeed is a basic reason to fail, whatever the opcode. -/
theorem isEnabled_verify (flags : Flags) (byte : UInt8) : (verify byte).code.isEnabled flags := by
  simp only [code, verifyCode]
  split <;> rfl

/-- A failure is not reported as success. Whether the unlocking script only pushes is no matter of its
evaluation. -/
theorem code_ne (e : EvalError) : e.code ≠ .ok ∧ e.code ≠ .sigPushOnly := by
  cases e with
  | verify byte =>
    simp only [code, verifyCode]
    split <;> exact ⟨nofun, nofun⟩
  | signatureEncoding error => cases error <;> exact ⟨nofun, nofun⟩
  | _ => exact ⟨nofun, nofun⟩

end EvalError

namespace Signature

theorem isEnabled_of_checkLowS {flags : Flags} {der : Bytes} {e : Error} (hflag : flags.lowS)
    (h : checkLowS der = .error e) : (EvalError.signatureEncoding e).code.isEnabled flags := by
  unfold checkLowS at h
  split at h
  · cases h
    simp [EvalError.code, ResultCode.isEnabled, hflag]
  · split at h
    · cases h
    · cases h
      exact hflag

/-- Each of the three checks on a signature is made only with flags that demand it. -/
theorem checkEncoding_eq_error {flags : Flags} {sig : Bytes} {e : Error}
    (h : checkEncoding flags sig = .error e) :
    (flags.strictEnc ∨ flags.lowS) ∧ (∃ error, e = .der error) ∨
      flags.lowS ∧ (∃ der, checkLowS der = .error e) ∨
      flags.strictEnc ∧ ∃ hashType, e = .hashType hashType := by
  unfold checkEncoding at h
  cases hsplit : splitHashType sig with
  | none =>
    rw [hsplit] at h
    cases h
  | some parts =>
    obtain ⟨der, hashType⟩ := parts
    have hok : Except.mapError Error.der (.ok ()) = .ok () := rfl
    have herror : ∀ e, Except.mapError Error.der (.error e : Except _ Unit) = .error (.der e) :=
      fun _ => rfl
    rw [hsplit] at h
    cases hd : checkDer der with
    | error error =>
      cases hstrict : flags.strictEnc <;> cases hlow : flags.lowS <;>
        simp [bind, Except.bind, pure, Except.pure, herror, hd, hstrict, hlow] at h ⊢ <;>
        simp [← h]
    | ok _ =>
      cases hl : checkLowS der <;> cases hstrict : flags.strictEnc <;> cases hlow : flags.lowS <;>
        simp [bind, Except.bind, pure, Except.pure, hok, hd, hl, hstrict, hlow] at h ⊢ <;> grind

/-- The encoding of a signature is refused for the rules that are switched on. -/
theorem isEnabled_of_checkEncoding {flags : Flags} {sig : Bytes} {e : Error}
    (h : checkEncoding flags sig = .error e) :
    (EvalError.signatureEncoding e).code.isEnabled flags := by
  rcases checkEncoding_eq_error h with ⟨hrule, error, rfl⟩ | ⟨hlow, der, hder⟩ | ⟨hstrict, _, rfl⟩
  · simpa [EvalError.code, ResultCode.isEnabled] using hrule
  · exact isEnabled_of_checkLowS hlow hder
  · exact hstrict

theorem isEnabled_of_checkKeyEncoding {flags : Flags} {key : Bytes} {e : Error}
    (h : checkKeyEncoding flags key = .error e) : EvalError.pubKeyType.code.isEnabled flags := by
  unfold checkKeyEncoding at h
  split at h
  · rename_i hrule
    simp only [Bool.and_eq_true] at hrule
    exact hrule.1
  · cases h

end Signature

namespace Action

variable {α β : Type} {env : Env} {credit : Nat} {rest : α → Nat} {last : β → Nat}

/-- Whether it succeeds or fails, an action pays for what it asks. The credit that it leaves depends on
its value. If it fails, this is due to a rule that is switched on, and not to one of those that change
the program. -/
def Pays (env : Env) (credit : Nat) (x : Action α) (rest : α → Nat) : Prop :=
  ∀ frame, match x frame with
    | .ok a frame' => frame.Pays env credit (rest a) frame'
    | .error e frame' => frame.Halts env credit frame' ∧ e.code.isEnabled env.flags.fixed

/-- An action that asks about no signature leaves all credit, however much there is. -/
abbrev Thrifty (env : Env) (x : Action α) : Prop := ∀ {credit}, Pays env credit x fun _ => credit

/-! ## Combinations -/

theorem pays_pure {a : α} (h : rest a ≤ credit) : Pays env credit (pure a) rest :=
  fun _ => .of_eq rfl rfl h

theorem pays_throw {e : EvalError} (h : e.code.isEnabled env.flags.fixed) :
    Pays env credit (throw e : Action α) rest :=
  fun frame => ⟨(Frame.Pays.refl frame).halts, h⟩

theorem pays_bind {x : Action α} {f : α → Action β} (hx : Pays env credit x rest)
    (hf : ∀ a, Pays env (rest a) (f a) last) : Pays env credit (x >>= f) last := by
  intro frame
  have hfirst := hx frame
  simp only [bind, EStateM.bind]
  cases hxf : x frame with
  | error e next =>
    rw [hxf] at hfirst
    exact hfirst
  | ok a next =>
    rw [hxf] at hfirst
    have hsecond := hf a next
    simp only
    cases hfn : f a next with
    | error e final =>
      rw [hfn] at hsecond
      exact ⟨hfirst.trans_halts hsecond.1, hsecond.2⟩
    | ok b final =>
      rw [hfn] at hsecond
      exact hfirst.trans hsecond

theorem pays_ite {p : Prop} [Decidable p] {x y : Action α} (hx : Pays env credit x rest)
    (hy : Pays env credit y rest) : Pays env credit (if p then x else y) rest := by
  split
  · exact hx
  · exact hy

/-- Credit that is not needed can be there. -/
theorem pays_mono {x : Action α} {more : Nat} (hx : Pays env credit x rest) (hle : credit ≤ more) :
    Pays env more x rest := by
  have hdrop : Pays env more (pure () : Action Unit) fun _ => credit := pays_pure hle
  exact pays_bind hdrop fun _ => hx

/-! ## Primitives -/

theorem pays_look (f : Stack Bytes → Except Stack.Error α) : Thrifty env (look f) := by
  intro credit frame
  unfold look
  cases f frame.stack with
  | ok a => exact .refl frame
  | error e => exact ⟨(Frame.Pays.refl frame).halts, EvalError.isEnabled_ofStack _ e⟩

theorem pays_take (f : Stack Bytes → Except Stack.Error (α × Stack Bytes)) :
    Thrifty env (take f) := by
  intro credit frame
  unfold take
  cases f frame.stack with
  | ok taken => exact .of_eq rfl rfl (Nat.le_refl _)
  | error e => exact ⟨(Frame.Pays.refl frame).halts, EvalError.isEnabled_ofStack _ e⟩

theorem pays_alter (f : Stack Bytes → Except Stack.Error (Stack Bytes)) : Thrifty env (alter f) :=
  pays_take _

theorem pays_altPush (element : Bytes) : Thrifty env (altPush element) := by
  intro credit frame
  unfold altPush
  cases frame.altStack.push element with
  | ok altStack => exact .of_eq rfl rfl (Nat.le_refl _)
  | error e => exact ⟨(Frame.Pays.refl frame).halts, EvalError.isEnabled_ofStack _ e⟩

theorem pays_altPop : Thrifty env altPop := by
  intro credit frame
  unfold altPop
  cases frame.altStack.pop with
  | ok taken => exact .of_eq rfl rfl (Nat.le_refl _)
  | error e => exact ⟨(Frame.Pays.refl frame).halts, rfl⟩

/-- Operations that are used up add to the credit. -/
theorem pays_charge (n : Nat) :
    Pays env credit (charge env.limits n) fun _ => credit + n := by
  intro frame
  have hchecks (ops : Nat) : ({ frame with opCount := ops } : Frame).checks = frame.checks := rfl
  unfold charge
  by_cases hops : env.limits.maxOps < frame.opCount + n
  · simp only [hops, if_true]
    refine ⟨⟨.of_eq rfl, ?_, ?_⟩, rfl⟩ <;> simp only [hchecks] <;> omega
  · simp only [hops, if_false]
    refine ⟨.of_eq rfl, ?_, ?_⟩ <;> simp only [hchecks] <;> omega

/-- A question about a signature takes one operation off the credit. -/
theorem pays_askSignature (sig key : Bytes) :
    Pays env (credit + 1) (askSignature env sig key) fun _ => credit := by
  intro frame
  refine ⟨⟨[.signature sig key env.sighash], rfl, by simp [Query.isOf]⟩, ?_, id⟩
  simp only [Frame.checks, List.countP_cons, Query.isSignature, if_true]
  omega

theorem pays_askLockTime (value : Int) : Thrifty env (askLockTime env value) := by
  intro credit frame
  refine ⟨⟨[.lockTime value], rfl, by simp [Query.isOf]⟩, ?_, id⟩
  simp [Frame.checks, Query.isSignature]

theorem pays_orFail {ε : Type} {toError : ε → EvalError} {x : Except ε α}
    (h : ∀ e, x = .error e → (toError e).code.isEnabled env.flags.fixed) :
    Thrifty env (orFail toError x) := by
  intro credit
  cases x with
  | ok a => exact pays_pure (Nat.le_refl _)
  | error e => exact pays_throw (h e rfl)

theorem pays_verify (byte : UInt8) (success : Bool) : Thrifty env (verify byte success) :=
  pays_ite (pays_pure (Nat.le_refl _)) (pays_throw (EvalError.isEnabled_verify _ byte))

theorem pays_concludeCheck (verifying : Opcode) (byte : UInt8) (success : Bool) :
    Thrifty env (concludeCheck verifying byte success) :=
  pays_ite (pays_verify _ _) (pays_alter _)

/-- What is left of the credit can be told from the elements, of which there are `n`. -/
theorem pays_popMany (n : Nat) {rest : List Bytes → Nat}
    (h : ∀ elements, elements.length = n → rest elements ≤ credit) :
    Pays env credit (popMany n) rest := by
  induction n generalizing rest with
  | zero => exact pays_pure (h [] rfl)
  | succ n ih =>
    refine pays_bind (pays_take _) fun first => ?_
    refine pays_bind (ih fun others hlen => ?_) fun others => pays_pure (Nat.le_refl _)
    exact h (first :: others) (by rw [List.length_cons, hlen])

/-! ## Rules that flags switch on -/

/-- The rule on numbers is basic, also where the flags make it stricter. -/
theorem pays_readNum (maxSize : Nat) (element : Bytes) :
    Thrifty env (readNum env.flags maxSize element) :=
  pays_orFail fun _ _ => rfl

theorem pays_popNum : Thrifty env (popNum env) :=
  pays_bind (pays_take _) fun element => pays_readNum _ element

theorem pays_popDummy : Thrifty env (popDummy env) := by
  intro credit
  refine pays_bind (pays_take _) fun dummy => ?_
  split
  · rename_i hrule
    exact pays_throw hrule.1
  · exact pays_pure (Nat.le_refl _)

theorem pays_upgradableNop : Thrifty env (upgradableNop env) := by
  intro credit
  unfold upgradableNop
  split
  · rename_i hrule
    exact pays_throw hrule
  · exact pays_pure (Nat.le_refl _)

theorem pays_checkLockTime : Thrifty env (checkLockTime env) := by
  intro credit
  unfold checkLockTime
  split
  · rename_i hrule
    refine pays_bind (pays_look _) fun top => ?_
    refine pays_bind (pays_readNum _ top) fun lockTime => ?_
    refine pays_ite (pays_throw hrule) ?_
    refine pays_bind (pays_askLockTime lockTime) fun reached => ?_
    exact pays_ite (pays_pure (Nat.le_refl _)) (pays_throw hrule)
  · exact pays_upgradableNop

/-! ## Signatures -/

theorem pays_checkSignature (sig key : Bytes) :
    Pays env (credit + 1) (checkSignature env sig key) fun _ => credit := by
  refine pays_bind (pays_orFail fun e he => ?_) fun _ => ?_
  · exact Signature.isEnabled_of_checkEncoding he
  · refine pays_bind (pays_orFail fun e he => ?_) fun _ => pays_askSignature sig key
    exact Signature.isEnabled_of_checkKeyEncoding he

theorem pays_checkSig (byte : UInt8) :
    Pays env (credit + 1) (checkSig env byte) fun _ => credit := by
  refine pays_bind (pays_look _) fun _ => ?_
  refine pays_bind (pays_take _) fun key => ?_
  refine pays_bind (pays_take _) fun sig => ?_
  exact pays_bind (pays_checkSignature sig key) fun success => pays_concludeCheck _ _ _

/-- With the operations that the keys have used up, every key can be tried once. Those that the keys
not tried have used up are left. -/
theorem pays_findKey (sig : Bytes) (keys : List Bytes) :
    Pays env keys.length (findKey env sig keys) fun found => (found.getD []).length := by
  induction keys with
  | nil => exact pays_pure (Nat.le_refl _)
  | cons key keys ih =>
    refine pays_bind (pays_checkSignature sig key) fun success => ?_
    exact pays_ite (pays_pure (Nat.le_refl _)) ih

theorem findKey_congr {env env' : Env} (h : checkSignature env = checkSignature env') :
    findKey env = findKey env' := by
  funext sig keys
  induction keys with
  | nil => rfl
  | cons key keys ih =>
    unfold findKey
    rw [ih, h]

/-- Which keys verify the signatures depends only on the check of a single signature. -/
theorem matchKeys_congr {env env' : Env} (h : checkSignature env = checkSignature env') :
    matchKeys env = matchKeys env' := by
  funext sigs keys
  induction sigs generalizing keys with
  | nil => rfl
  | cons sig sigs ih =>
    unfold matchKeys
    rw [findKey_congr h]
    simp only [ih]

theorem pays_matchKeys (sigs keys : List Bytes) :
    Pays env keys.length (matchKeys env sigs keys) fun _ => 0 := by
  induction sigs generalizing keys with
  | nil => exact pays_pure (Nat.zero_le _)
  | cons sig sigs ih =>
    refine pays_bind (pays_findKey sig keys) fun found => ?_
    cases found with
    | some keys => exact ih keys
    | none => exact pays_pure (Nat.le_refl _)

theorem pays_popKeys : Pays env 0 (popKeys env) List.length := by
  refine pays_bind pays_popNum fun count => ?_
  refine pays_ite (pays_throw rfl) ?_
  refine pays_bind (pays_charge _) fun _ => ?_
  refine pays_bind (pays_look _) fun _ => ?_
  refine pays_bind (pays_popMany _ fun keys hlen => ?_) fun keys => pays_pure (Nat.le_refl _)
  simp [hlen]

theorem pays_popSigs (keyCount : Nat) : Thrifty env (popSigs env keyCount) := by
  intro credit
  refine pays_bind pays_popNum fun count => ?_
  refine pays_ite (pays_throw rfl) ?_
  refine pays_bind (pays_look _) fun _ => ?_
  exact pays_bind (pays_popMany _ fun _ _ => Nat.le_refl _) fun sigs => pays_pure (Nat.le_refl _)

theorem pays_checkMultiSig (byte : UInt8) :
    Pays env 0 (checkMultiSig env byte) fun _ => 0 := by
  refine pays_bind pays_popKeys fun keys => ?_
  refine pays_bind (pays_popSigs _) fun sigs => ?_
  refine pays_bind pays_popDummy fun _ => ?_
  exact pays_bind (pays_matchKeys sigs keys) fun success => pays_concludeCheck _ _ _

/-! ## Arithmetic and hashes -/

theorem pays_equal (byte : UInt8) : Thrifty env (equal byte) := by
  refine pays_bind (pays_look _) fun _ => ?_
  refine pays_bind (pays_take _) fun x2 => ?_
  refine pays_bind (pays_take _) fun x1 => ?_
  exact pays_concludeCheck _ _ _

theorem pays_unaryNum (byte : UInt8) : Thrifty env (unaryNum env byte) := by
  refine pays_bind pays_popNum fun n => ?_
  split
  · exact pays_alter _
  · exact pays_throw rfl

theorem pays_binaryNum (byte : UInt8) : Thrifty env (binaryNum env byte) := by
  refine pays_bind (pays_look _) fun _ => ?_
  refine pays_bind pays_popNum fun b => ?_
  refine pays_bind pays_popNum fun a => ?_
  split
  · exact pays_ite (pays_verify _ _) (pays_alter _)
  · exact pays_throw rfl

theorem pays_within : Thrifty env (within env) := by
  refine pays_bind (pays_look _) fun _ => ?_
  refine pays_bind pays_popNum fun high => ?_
  refine pays_bind pays_popNum fun low => ?_
  exact pays_bind pays_popNum fun x => pays_alter _

theorem pays_hash (byte : UInt8) : Thrifty env (hash byte) := by
  refine pays_bind (pays_take _) fun data => ?_
  split
  · exact pays_alter _
  · exact pays_throw rfl

/-! ## Shuffles -/

theorem pays_verifyTop (byte : UInt8) : Thrifty env (verifyTop byte) := by
  refine pays_bind (pays_look _) fun top => ?_
  refine pays_bind (pays_verify _ _) fun _ => ?_
  exact pays_bind (pays_take _) fun _ => pays_pure (Nat.le_refl _)

theorem pays_drop : Thrifty env drop := pays_bind (pays_take _) fun _ => pays_pure (Nat.le_refl _)

theorem pays_drop2 : Thrifty env drop2 := by
  refine pays_bind (pays_look _) fun _ => ?_
  refine pays_bind (pays_take _) fun _ => ?_
  exact pays_bind (pays_take _) fun _ => pays_pure (Nat.le_refl _)

theorem pays_dup2 : Thrifty env dup2 := by
  refine pays_bind (pays_look _) fun _ => ?_
  refine pays_bind (pays_look _) fun x1 => ?_
  refine pays_bind (pays_look _) fun x2 => ?_
  exact pays_bind (pays_alter _) fun _ => pays_alter _

theorem pays_dup3 : Thrifty env dup3 := by
  refine pays_bind (pays_look _) fun _ => ?_
  refine pays_bind (pays_look _) fun x1 => ?_
  refine pays_bind (pays_look _) fun x2 => ?_
  refine pays_bind (pays_look _) fun x3 => ?_
  refine pays_bind (pays_alter _) fun _ => ?_
  exact pays_bind (pays_alter _) fun _ => pays_alter _

theorem pays_over2 : Thrifty env over2 := by
  refine pays_bind (pays_look _) fun _ => ?_
  refine pays_bind (pays_look _) fun x1 => ?_
  refine pays_bind (pays_look _) fun x2 => ?_
  exact pays_bind (pays_alter _) fun _ => pays_alter _

theorem pays_rot2 : Thrifty env rot2 := by
  refine pays_bind (pays_look _) fun _ => ?_
  refine pays_bind (pays_take _) fun x1 => ?_
  refine pays_bind (pays_take _) fun x2 => ?_
  exact pays_bind (pays_alter _) fun _ => pays_alter _

theorem pays_swap2 : Thrifty env swap2 := by
  refine pays_bind (pays_look _) fun _ => ?_
  exact pays_bind (pays_alter _) fun _ => pays_alter _

theorem pays_ifDup : Thrifty env ifDup := by
  refine pays_bind (pays_look _) fun top => ?_
  exact pays_ite (pays_alter _) (pays_pure (Nat.le_refl _))

theorem pays_nip : Thrifty env nip := by
  refine pays_bind (pays_look _) fun _ => ?_
  exact pays_bind (pays_take _) fun _ => pays_pure (Nat.le_refl _)

theorem pays_pickRoll (byte : UInt8) : Thrifty env (pickRoll env byte) := by
  refine pays_bind (pays_look _) fun _ => ?_
  refine pays_bind pays_popNum fun n => ?_
  refine pays_bind (pays_look _) fun len => ?_
  refine pays_ite (pays_throw rfl) (pays_ite ?_ ?_)
  · exact pays_bind (pays_take _) fun x => pays_alter _
  · exact pays_bind (pays_look _) fun x => pays_alter _

theorem pays_rot : Thrifty env rot := by
  refine pays_bind (pays_look _) fun _ => ?_
  exact pays_bind (pays_take _) fun x1 => pays_alter _

theorem pays_tuck : Thrifty env tuck := by
  refine pays_bind (pays_look _) fun _ => ?_
  exact pays_bind (pays_look _) fun x2 => pays_alter _

/-- An element that is looked at is pushed in some form. -/
theorem pays_look_push (f : Stack Bytes → Except Stack.Error α) (g : α → Bytes) :
    Thrifty env (do push (g (← look f))) :=
  pays_bind (pays_look f) fun _ => pays_alter _

end Action

/-- The credit that a handler needs. The check of several signatures needs none, since it uses up an
operation for every key itself. -/
def Handler.checks : Handler → Nat
  | .checkSig => 1
  | _ => 0

open CoinScript.Action in
/-- A handler with the credit it needs pays for what it asks. -/
theorem Handler.pays_run (env : Env) (byte : UInt8) (handler : Handler) :
    Pays env handler.checks (handler.run env byte) fun _ => 0 := by
  cases handler with
  | pushEmpty => exact pays_alter _
  | pushConstant => exact pays_alter _
  | nop => exact pays_pure (Nat.le_refl _)
  | upgradableNop => exact pays_upgradableNop
  | checkLockTime => exact pays_checkLockTime
  | verifyTop => exact pays_verifyTop byte
  | abort => exact pays_throw rfl
  | toAltStack => exact pays_bind (pays_take _) fun _ => pays_altPush _
  | fromAltStack => exact pays_bind pays_altPop fun _ => pays_alter _
  | drop => exact pays_drop
  | drop2 => exact pays_drop2
  | dup => exact pays_look_push _ id
  | dup2 => exact pays_dup2
  | dup3 => exact pays_dup3
  | over2 => exact pays_over2
  | rot2 => exact pays_rot2
  | swap2 => exact pays_swap2
  | ifDup => exact pays_ifDup
  | pushDepth => exact pays_look_push _ fun n => ScriptNum.encode (n : Nat)
  | nip => exact pays_nip
  | overTop => exact pays_look_push _ id
  | pickRoll => exact pays_pickRoll byte
  | rot => exact pays_rot
  | swapTop => exact pays_bind (pays_look _) fun _ => pays_alter _
  | tuck => exact pays_tuck
  | pushSize => exact pays_look_push _ fun (x : Bytes) => ScriptNum.encode (x.length : Nat)
  | equal => exact pays_equal byte
  | unaryNum => exact pays_unaryNum byte
  | binaryNum => exact pays_binaryNum byte
  | within => exact pays_within
  | hash => exact pays_hash byte
  | checkSig => exact pays_checkSig byte
  | checkMultiSig => exact pays_checkMultiSig byte

end CoinScript
