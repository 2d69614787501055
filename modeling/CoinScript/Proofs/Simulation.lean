import CoinScript.Proofs.Success

/-!
# Two computations side by side

A computation is simulated by another one if, from related states, the other succeeds whenever the
first does, with the same value and in related states again. A strict simulation also keeps failures:
the other fails whenever the first does, for the same reason.

The main result is about opcodes: what a handler does under some flags is simulated by what it does
under flags that demand less. The simulation is strict if the flags are the same.
-/

namespace CoinScript

variable {σ α β : Type} {strict : Prop} {P Q R : σ → σ → Prop}

/-- The second result is what the simulation of a computation with the first result may end with. -/
def Answers (strict : Prop) (Q : σ → σ → Prop) :
    EStateM.Result EvalError σ α → EStateM.Result EvalError σ α → Prop
  | .ok a s, result => ∃ t, result = .ok a t ∧ Q s t
  | .error e _, result => strict → ∃ t, result = .error e t

/-- From states related by `P`, the first computation is simulated by the second, which leads to
states related by `Q`. -/
def Simulated (strict : Prop) (P Q : σ → σ → Prop) (x y : EStateM EvalError σ α) : Prop :=
  ∀ s t, P s t → Answers strict Q (x s) (y t)

/-! ## Combinations -/

theorem answers_mono {r r' : EStateM.Result EvalError σ α} (hQ : ∀ s t, P s t → Q s t)
    (h : Answers strict P r r') : Answers strict Q r r' := by
  cases r with
  | ok a s =>
    obtain ⟨t, hr, hst⟩ := h
    exact ⟨t, hr, hQ s t hst⟩
  | error e s => exact h

theorem simulated_pure (a : α) : Simulated strict P P (pure a) (pure a) := by
  intro s t hst
  exact ⟨t, rfl, hst⟩

theorem simulated_throw (e : EvalError) :
    Simulated strict P Q (throw e : EStateM EvalError σ α) (throw e) := by
  intro s t _ _
  exact ⟨t, rfl⟩

/-- A failure is simulated by anything, unless failures have to be kept. -/
theorem simulated_throw_of_not_strict (e : EvalError) (y : EStateM EvalError σ α)
    (h : ¬strict) : Simulated strict P Q (throw e) y := by
  intro s t _ hs
  exact absurd hs h

theorem simulated_bind {x y : EStateM EvalError σ α} {f g : α → EStateM EvalError σ β}
    (hx : Simulated strict P Q x y) (hf : ∀ a, Simulated strict Q R (f a) (g a)) :
    Simulated strict P R (x >>= f) (y >>= g) := by
  intro s t hst
  have hx := hx s t hst
  simp only [bind, EStateM.bind]
  cases hs : x s with
  | ok a s' =>
    rw [hs] at hx
    obtain ⟨t', ht, hst'⟩ := hx
    rw [ht]
    exact hf a s' t' hst'
  | error e s' =>
    rw [hs] at hx
    intro h
    obtain ⟨t', ht⟩ := hx h
    rw [ht]
    exact ⟨t', rfl⟩

theorem simulated_ite {p : Prop} [Decidable p] {x y x' y' : EStateM EvalError σ α}
    (hx : Simulated strict P Q x x') (hy : Simulated strict P Q y y') :
    Simulated strict P Q (if p then x else y) (if p then x' else y') := by
  split
  · exact hx
  · exact hy

/-- A check that fails only if another one fails can take its place. -/
theorem simulated_guard {p q : Prop} [Decidable p] [Decidable q] (e : EvalError)
    {x y : EStateM EvalError σ α} (h : q → p) (hs : strict → p → q)
    (hx : Simulated strict P Q x y) :
    Simulated strict P Q (if p then throw e else x) (if q then throw e else y) := by
  by_cases hq : q
  · rw [if_pos hq, if_pos (h hq)]
    exact simulated_throw e
  · rw [if_neg hq]
    by_cases hp : p
    · rw [if_pos hp]
      exact simulated_throw_of_not_strict e y fun hstrict => hq (hs hstrict hp)
    · rw [if_neg hp]
      exact hx

/-! ## Flags that demand less -/

/-- Under the flags an opcode demands no more than under the `stronger` ones. Lock times can be left
unchecked only if the opcode is a no-operation then. In a strict comparison the flags are the same. -/
structure Flags.Relaxes (strict : Prop) (flags stronger : Flags) : Prop where
  strictEnc : flags.strictEnc → stronger.strictEnc
  lowS : flags.lowS → stronger.lowS
  nullDummy : flags.nullDummy → stronger.nullDummy
  minimalData : flags.minimalData → stronger.minimalData
  discourageUpgradableNops : flags.discourageUpgradableNops → stronger.discourageUpgradableNops
  checkLockTimeVerify : flags.checkLockTimeVerify → stronger.checkLockTimeVerify
  nop_or_same : flags.discourageUpgradableNops = false ∨
    flags.checkLockTimeVerify = stronger.checkLockTimeVerify
  eq_of_strict : strict → flags = stronger

theorem Flags.Relaxes.refl (flags : Flags) : flags.Relaxes strict flags :=
  ⟨id, id, id, id, id, id, .inr rfl, fun _ => rfl⟩

/-- Frames that differ in the questions asked at most. -/
def Frame.Alike (frame frame' : Frame) : Prop := ∃ asked, frame' = { frame with asked }

theorem Frame.Alike.refl (frame : Frame) : frame.Alike frame := ⟨frame.asked, rfl⟩

theorem Frame.Alike.stack_eq {frame frame' : Frame} (h : frame.Alike frame') :
    frame'.stack = frame.stack := by
  obtain ⟨asked, rfl⟩ := h
  rfl

theorem Frame.Alike.size_eq {frame frame' : Frame} (h : frame.Alike frame') :
    frame'.size = frame.size := by
  obtain ⟨asked, rfl⟩ := h
  rfl

/-! ## What the rules demand -/

namespace Signature

/-- Every flag adds a demand of its own on a signature that is not empty. -/
theorem checkEncoding_eq_ok_iff {flags : Flags} {sig : Bytes} :
    checkEncoding flags sig = .ok () ↔ ∀ der hashType, splitHashType sig = some (der, hashType) →
      (flags.strictEnc ∨ flags.lowS → checkDer der = .ok ()) ∧
        (flags.lowS → checkLowS der = .ok ()) ∧
          (flags.strictEnc → isDefinedHashType hashType) := by
  unfold checkEncoding
  cases hsplit : splitHashType sig with
  | none => simp
  | some parts =>
    obtain ⟨der, hashType⟩ := parts
    have hok : Except.mapError Error.der (.ok ()) = .ok () := rfl
    have herror : ∀ e, Except.mapError Error.der (.error e : Except _ Unit) = .error (.der e) :=
      fun _ => rfl
    cases flags.strictEnc <;> cases flags.lowS <;> cases hd : checkDer der <;>
      cases hl : checkLowS der <;>
      simp [bind, Except.bind, pure, Except.pure, hok, herror, hd, hl]

theorem checkKeyEncoding_eq_ok_iff {flags : Flags} {key : Bytes} :
    checkKeyEncoding flags key = .ok () ↔ (flags.strictEnc → isKeyForm key) := by
  unfold checkKeyEncoding
  cases flags.strictEnc <;> cases isKeyForm key <;> simp

end Signature

namespace Action

variable {env : Env} {flags : Flags}

/-- On frames that are alike, the first action is simulated by the second. -/
abbrev SimulatedBy (strict : Prop) (x y : Action α) : Prop :=
  Simulated strict Frame.Alike Frame.Alike x y

/-! ## Primitives -/

theorem simulated_look (f : Stack Bytes → Except Stack.Error α) :
    SimulatedBy strict (look f) (look f) := by
  rintro frame _ ⟨asked, rfl⟩
  cases h : f frame.stack with
  | ok a =>
    simp only [look, h]
    exact ⟨_, rfl, asked, rfl⟩
  | error e =>
    simp only [look, h]
    exact fun _ => ⟨_, rfl⟩

theorem simulated_take (f : Stack Bytes → Except Stack.Error (α × Stack Bytes)) :
    SimulatedBy strict (take f) (take f) := by
  rintro frame _ ⟨asked, rfl⟩
  cases h : f frame.stack with
  | ok taken =>
    simp only [take, h]
    exact ⟨_, rfl, asked, rfl⟩
  | error e =>
    simp only [take, h]
    exact fun _ => ⟨_, rfl⟩

theorem simulated_alter (f : Stack Bytes → Except Stack.Error (Stack Bytes)) :
    SimulatedBy strict (alter f) (alter f) :=
  simulated_take _

theorem simulated_altPush (element : Bytes) :
    SimulatedBy strict (altPush element) (altPush element) := by
  rintro frame _ ⟨asked, rfl⟩
  cases h : frame.altStack.push element with
  | ok altStack =>
    simp only [altPush, h]
    exact ⟨_, rfl, asked, rfl⟩
  | error e =>
    simp only [altPush, h]
    exact fun _ => ⟨_, rfl⟩

theorem simulated_altPop : SimulatedBy strict altPop altPop := by
  rintro frame _ ⟨asked, rfl⟩
  cases h : frame.altStack.pop with
  | ok taken =>
    simp only [altPop, h]
    exact ⟨_, rfl, asked, rfl⟩
  | error e =>
    simp only [altPop, h]
    exact fun _ => ⟨_, rfl⟩

theorem simulated_charge (limits : Limits) (n : Nat) :
    SimulatedBy strict (charge limits n) (charge limits n) := by
  rintro frame _ ⟨asked, rfl⟩
  by_cases h : limits.maxOps < frame.opCount + n
  · simp only [charge, h, if_true]
    exact fun _ => ⟨_, rfl⟩
  · simp only [charge, h, if_false]
    exact ⟨_, rfl, asked, rfl⟩

/-- The checker answers the same under any flags. -/
theorem simulated_askSignature (sig key : Bytes) :
    SimulatedBy strict (askSignature env sig key) (askSignature { env with flags } sig key) := by
  rintro frame _ ⟨asked, rfl⟩
  exact ⟨_, rfl, .signature sig key env.sighash :: asked, rfl⟩

theorem simulated_askLockTime (value : Int) :
    SimulatedBy strict (askLockTime env value) (askLockTime { env with flags } value) := by
  rintro frame _ ⟨asked, rfl⟩
  exact ⟨_, rfl, .lockTime value :: asked, rfl⟩

/-- A computation that gives a value only if another one gives that value can take its place. -/
theorem simulated_orFail {ε : Type} (toError : ε → EvalError) {x y : Except ε α}
    (h : ∀ a, x = .ok a → y = .ok a) (hs : strict → x = y) :
    SimulatedBy strict (orFail toError x) (orFail toError y) := by
  cases x with
  | ok a =>
    rw [h a rfl]
    exact simulated_pure a
  | error e =>
    by_cases hstrict : strict
    · rw [← hs hstrict]
      exact simulated_throw _
    · exact simulated_throw_of_not_strict _ _ hstrict

theorem simulated_verify (byte : UInt8) (success : Bool) :
    SimulatedBy strict (verify byte success) (verify byte success) :=
  simulated_ite (simulated_pure _) (simulated_throw _)

theorem simulated_popMany (n : Nat) : SimulatedBy strict (popMany n) (popMany n) := by
  induction n with
  | zero => exact simulated_pure _
  | succ n ih =>
    refine simulated_bind (simulated_take _) fun first => ?_
    exact simulated_bind ih fun rest => simulated_pure _

theorem simulated_concludeCheck (verifying : Opcode) (byte : UInt8) (success : Bool) :
    SimulatedBy strict (concludeCheck verifying byte success)
      (concludeCheck verifying byte success) :=
  simulated_ite (simulated_verify _ _) (simulated_alter _)

/-! ## Rules that flags switch on -/

theorem simulated_readNum (h : flags.Relaxes strict env.flags) (maxSize : Nat) (element : Bytes) :
    SimulatedBy strict (readNum env.flags maxSize element) (readNum flags maxSize element) := by
  refine simulated_orFail _ (fun n hn => ?_) fun hs => ?_
  · rw [ScriptNum.decode_eq_ok_iff] at hn ⊢
    refine hn.imp_right fun ⟨hne, hlen, hmin, hvalue⟩ => ⟨hne, hlen, ?_, hvalue⟩
    exact fun hm => hmin (h.minimalData hm)
  · rw [h.eq_of_strict hs]

theorem simulated_popNum (h : flags.Relaxes strict env.flags) :
    SimulatedBy strict (popNum env) (popNum { env with flags }) :=
  simulated_bind (simulated_take _) fun element => simulated_readNum h _ element

theorem simulated_checkSignature (h : flags.Relaxes strict env.flags) (sig key : Bytes) :
    SimulatedBy strict (checkSignature env sig key) (checkSignature { env with flags } sig key) := by
  refine simulated_bind (simulated_orFail _ (fun _ hok => ?_) fun hs => ?_) fun _ => ?_
  · rw [Signature.checkEncoding_eq_ok_iff] at hok ⊢
    intro der hashType hsplit
    obtain ⟨hder, hlow, htype⟩ := hok der hashType hsplit
    refine ⟨fun hflags => hder ?_, fun hl => hlow (h.lowS hl), fun he => htype (h.strictEnc he)⟩
    exact hflags.imp h.strictEnc h.lowS
  · rw [h.eq_of_strict hs]
  · refine simulated_bind (simulated_orFail _ (fun _ hok => ?_) fun hs => ?_) fun _ => ?_
    · rw [Signature.checkKeyEncoding_eq_ok_iff] at hok ⊢
      exact fun he => hok (h.strictEnc he)
    · rw [h.eq_of_strict hs]
    · exact simulated_askSignature sig key

theorem simulated_popDummy (h : flags.Relaxes strict env.flags) :
    SimulatedBy strict (popDummy env) (popDummy { env with flags }) := by
  refine simulated_bind (simulated_take _) fun dummy => ?_
  refine simulated_guard _ (fun hd => ⟨h.nullDummy hd.1, hd.2⟩) (fun hs hd => ?_) (simulated_pure _)
  rw [h.eq_of_strict hs]
  exact hd

theorem simulated_upgradableNop (h : flags.Relaxes strict env.flags) :
    SimulatedBy strict (upgradableNop env) (upgradableNop { env with flags }) := by
  refine simulated_guard _ h.discourageUpgradableNops (fun hs hd => ?_) (simulated_pure _)
  rw [h.eq_of_strict hs]
  exact hd

theorem simulated_checkLockTime (h : flags.Relaxes strict env.flags) :
    SimulatedBy strict (checkLockTime env) (checkLockTime { env with flags }) := by
  by_cases hweak : flags.checkLockTimeVerify
  · -- both compare the lock time
    have hstrong := h.checkLockTimeVerify hweak
    simp only [checkLockTime, hweak, hstrong, if_true]
    refine simulated_bind (simulated_look _) fun top => ?_
    refine simulated_bind (simulated_readNum h _ top) fun lockTime => ?_
    refine simulated_ite (simulated_throw _) ?_
    refine simulated_bind (simulated_askLockTime lockTime) fun reached => ?_
    exact simulated_ite (simulated_pure _) (simulated_throw _)
  · by_cases hstrong : env.flags.checkLockTimeVerify
    · -- only the first one compares it, so the second is a no-operation that is not discouraged
      have hne : flags.checkLockTimeVerify ≠ env.flags.checkLockTimeVerify := by simp_all
      have hnop := h.nop_or_same.resolve_right hne
      rintro frame _ ⟨asked, rfl⟩
      cases hr : checkLockTime env frame with
      | ok _ frame' =>
        obtain ⟨lockTime, rfl⟩ := checkLockTime_eq_ok hstrong hr
        refine ⟨{ frame with asked }, ?_, asked, rfl⟩
        simp [checkLockTime, hweak, upgradableNop, hnop, pure, EStateM.pure]
      | error e frame' => exact fun hs => absurd (congrArg _ (h.eq_of_strict hs)) hne
    · simp only [checkLockTime, hweak, hstrong]
      exact simulated_upgradableNop h

/-! ## Several signatures -/

theorem simulated_findKey (h : flags.Relaxes strict env.flags) (sig : Bytes) (keys : List Bytes) :
    SimulatedBy strict (findKey env sig keys) (findKey { env with flags } sig keys) := by
  induction keys with
  | nil => exact simulated_pure _
  | cons key keys ih =>
    refine simulated_bind (simulated_checkSignature h sig key) fun success => ?_
    exact simulated_ite (simulated_pure _) ih

theorem simulated_matchKeys (h : flags.Relaxes strict env.flags) (sigs keys : List Bytes) :
    SimulatedBy strict (matchKeys env sigs keys) (matchKeys { env with flags } sigs keys) := by
  induction sigs generalizing keys with
  | nil => exact simulated_pure _
  | cons sig sigs ih =>
    refine simulated_bind (simulated_findKey h sig keys) fun found => ?_
    cases found with
    | some keys => exact ih keys
    | none => exact simulated_pure _

theorem simulated_popKeys (h : flags.Relaxes strict env.flags) :
    SimulatedBy strict (popKeys env) (popKeys { env with flags }) := by
  refine simulated_bind (simulated_popNum h) fun count => ?_
  refine simulated_ite (simulated_throw _) ?_
  refine simulated_bind (simulated_charge _ _) fun _ => ?_
  refine simulated_bind (simulated_look _) fun _ => ?_
  exact simulated_bind (simulated_popMany _) fun keys => simulated_pure _

theorem simulated_popSigs (h : flags.Relaxes strict env.flags) (keyCount : Nat) :
    SimulatedBy strict (popSigs env keyCount) (popSigs { env with flags } keyCount) := by
  refine simulated_bind (simulated_popNum h) fun count => ?_
  refine simulated_ite (simulated_throw _) ?_
  refine simulated_bind (simulated_look _) fun _ => ?_
  exact simulated_bind (simulated_popMany _) fun sigs => simulated_pure _

theorem simulated_checkMultiSig (h : flags.Relaxes strict env.flags) (byte : UInt8) :
    SimulatedBy strict (checkMultiSig env byte) (checkMultiSig { env with flags } byte) := by
  refine simulated_bind (simulated_popKeys h) fun keys => ?_
  refine simulated_bind (simulated_popSigs h _) fun sigs => ?_
  refine simulated_bind (simulated_popDummy h) fun _ => ?_
  refine simulated_bind (simulated_matchKeys h sigs keys) fun success => ?_
  exact simulated_concludeCheck _ _ _

theorem simulated_checkSig (h : flags.Relaxes strict env.flags) (byte : UInt8) :
    SimulatedBy strict (checkSig env byte) (checkSig { env with flags } byte) := by
  refine simulated_bind (simulated_look _) fun _ => ?_
  refine simulated_bind (simulated_take _) fun key => ?_
  refine simulated_bind (simulated_take _) fun sig => ?_
  refine simulated_bind (simulated_checkSignature h sig key) fun success => ?_
  exact simulated_concludeCheck _ _ _

/-! ## Arithmetic and hashes -/

theorem simulated_equal (byte : UInt8) : SimulatedBy strict (equal byte) (equal byte) := by
  refine simulated_bind (simulated_look _) fun _ => ?_
  refine simulated_bind (simulated_take _) fun x2 => ?_
  refine simulated_bind (simulated_take _) fun x1 => ?_
  exact simulated_concludeCheck _ _ _

theorem simulated_unaryNum (h : flags.Relaxes strict env.flags) (byte : UInt8) :
    SimulatedBy strict (unaryNum env byte) (unaryNum { env with flags } byte) := by
  refine simulated_bind (simulated_popNum h) fun n => ?_
  split
  · exact simulated_alter _
  · exact simulated_throw _

theorem simulated_binaryNum (h : flags.Relaxes strict env.flags) (byte : UInt8) :
    SimulatedBy strict (binaryNum env byte) (binaryNum { env with flags } byte) := by
  refine simulated_bind (simulated_look _) fun _ => ?_
  refine simulated_bind (simulated_popNum h) fun b => ?_
  refine simulated_bind (simulated_popNum h) fun a => ?_
  split
  · exact simulated_ite (simulated_verify _ _) (simulated_alter _)
  · exact simulated_throw _

theorem simulated_within (h : flags.Relaxes strict env.flags) :
    SimulatedBy strict (within env) (within { env with flags }) := by
  refine simulated_bind (simulated_look _) fun _ => ?_
  refine simulated_bind (simulated_popNum h) fun high => ?_
  refine simulated_bind (simulated_popNum h) fun low => ?_
  refine simulated_bind (simulated_popNum h) fun x => ?_
  exact simulated_alter _

theorem simulated_hash (byte : UInt8) : SimulatedBy strict (hash byte) (hash byte) := by
  refine simulated_bind (simulated_take _) fun data => ?_
  split
  · exact simulated_alter _
  · exact simulated_throw _

/-! ## Shuffles -/

theorem simulated_verifyTop (byte : UInt8) : SimulatedBy strict (verifyTop byte) (verifyTop byte) := by
  refine simulated_bind (simulated_look _) fun top => ?_
  refine simulated_bind (simulated_verify _ _) fun _ => ?_
  exact simulated_bind (simulated_take _) fun _ => simulated_pure _

theorem simulated_drop : SimulatedBy strict drop drop :=
  simulated_bind (simulated_take _) fun _ => simulated_pure _

theorem simulated_drop2 : SimulatedBy strict drop2 drop2 := by
  refine simulated_bind (simulated_look _) fun _ => ?_
  refine simulated_bind (simulated_take _) fun _ => ?_
  exact simulated_bind (simulated_take _) fun _ => simulated_pure _

theorem simulated_dup2 : SimulatedBy strict dup2 dup2 := by
  refine simulated_bind (simulated_look _) fun _ => ?_
  refine simulated_bind (simulated_look _) fun x1 => ?_
  refine simulated_bind (simulated_look _) fun x2 => ?_
  exact simulated_bind (simulated_alter _) fun _ => simulated_alter _

theorem simulated_dup3 : SimulatedBy strict dup3 dup3 := by
  refine simulated_bind (simulated_look _) fun _ => ?_
  refine simulated_bind (simulated_look _) fun x1 => ?_
  refine simulated_bind (simulated_look _) fun x2 => ?_
  refine simulated_bind (simulated_look _) fun x3 => ?_
  refine simulated_bind (simulated_alter _) fun _ => ?_
  exact simulated_bind (simulated_alter _) fun _ => simulated_alter _

theorem simulated_over2 : SimulatedBy strict over2 over2 := by
  refine simulated_bind (simulated_look _) fun _ => ?_
  refine simulated_bind (simulated_look _) fun x1 => ?_
  refine simulated_bind (simulated_look _) fun x2 => ?_
  exact simulated_bind (simulated_alter _) fun _ => simulated_alter _

theorem simulated_rot2 : SimulatedBy strict rot2 rot2 := by
  refine simulated_bind (simulated_look _) fun _ => ?_
  refine simulated_bind (simulated_take _) fun x1 => ?_
  refine simulated_bind (simulated_take _) fun x2 => ?_
  exact simulated_bind (simulated_alter _) fun _ => simulated_alter _

theorem simulated_swap2 : SimulatedBy strict swap2 swap2 := by
  refine simulated_bind (simulated_look _) fun _ => ?_
  exact simulated_bind (simulated_alter _) fun _ => simulated_alter _

theorem simulated_ifDup : SimulatedBy strict ifDup ifDup := by
  refine simulated_bind (simulated_look _) fun top => ?_
  exact simulated_ite (simulated_alter _) (simulated_pure _)

theorem simulated_nip : SimulatedBy strict nip nip := by
  refine simulated_bind (simulated_look _) fun _ => ?_
  exact simulated_bind (simulated_take _) fun _ => simulated_pure _

theorem simulated_pickRoll (h : flags.Relaxes strict env.flags) (byte : UInt8) :
    SimulatedBy strict (pickRoll env byte) (pickRoll { env with flags } byte) := by
  refine simulated_bind (simulated_look _) fun _ => ?_
  refine simulated_bind (simulated_popNum h) fun n => ?_
  refine simulated_bind (simulated_look _) fun len => ?_
  refine simulated_ite (simulated_throw _) (simulated_ite ?_ ?_)
  · exact simulated_bind (simulated_take _) fun x => simulated_alter _
  · exact simulated_bind (simulated_look _) fun x => simulated_alter _

theorem simulated_rot : SimulatedBy strict rot rot := by
  refine simulated_bind (simulated_look _) fun _ => ?_
  exact simulated_bind (simulated_take _) fun x1 => simulated_alter _

theorem simulated_tuck : SimulatedBy strict tuck tuck := by
  refine simulated_bind (simulated_look _) fun _ => ?_
  exact simulated_bind (simulated_look _) fun x2 => simulated_alter _

/-- An element that is looked at is pushed in some form. -/
theorem simulated_look_push (f : Stack Bytes → Except Stack.Error α) (g : α → Bytes) :
    SimulatedBy strict (do push (g (← look f))) (do push (g (← look f))) :=
  simulated_bind (simulated_look f) fun _ => simulated_alter _

end Action

open CoinScript.Action in
/-- What a handler does is simulated by what it does under flags that demand less. -/
theorem Handler.simulated_run {env : Env} {flags : Flags} (h : flags.Relaxes strict env.flags)
    (byte : UInt8) (handler : Handler) :
    SimulatedBy strict (handler.run env byte) (handler.run { env with flags } byte) := by
  cases handler with
  | pushEmpty => exact simulated_alter _
  | pushConstant => exact simulated_alter _
  | nop => exact simulated_pure _
  | upgradableNop => exact simulated_upgradableNop h
  | checkLockTime => exact simulated_checkLockTime h
  | verifyTop => exact simulated_verifyTop byte
  | abort => exact simulated_throw _
  | toAltStack => exact simulated_bind (simulated_take _) fun _ => simulated_altPush _
  | fromAltStack => exact simulated_bind simulated_altPop fun _ => simulated_alter _
  | drop => exact simulated_drop
  | drop2 => exact simulated_drop2
  | dup => exact simulated_look_push _ id
  | dup2 => exact simulated_dup2
  | dup3 => exact simulated_dup3
  | over2 => exact simulated_over2
  | rot2 => exact simulated_rot2
  | swap2 => exact simulated_swap2
  | ifDup => exact simulated_ifDup
  | pushDepth => exact simulated_look_push _ fun n => ScriptNum.encode (n : Nat)
  | nip => exact simulated_nip
  | overTop => exact simulated_look_push _ id
  | pickRoll => exact simulated_pickRoll h byte
  | rot => exact simulated_rot
  | swapTop => exact simulated_bind (simulated_look _) fun _ => simulated_alter _
  | tuck => exact simulated_tuck
  | pushSize => exact simulated_look_push _ fun (x : Bytes) => ScriptNum.encode (x.length : Nat)
  | equal => exact simulated_equal byte
  | unaryNum => exact simulated_unaryNum h byte
  | binaryNum => exact simulated_binaryNum h byte
  | within => exact simulated_within h
  | hash => exact simulated_hash byte
  | checkSig => exact simulated_checkSig h byte
  | checkMultiSig => exact simulated_checkMultiSig h byte

/-! ## Questions asked before -/

/-- The questions asked before make no difference to an action if it is simulated by itself. -/
theorem Action.isBlind_iff_simulated {x : Action α} :
    x.IsBlind ↔ Action.SimulatedBy True x x := by
  constructor
  · rintro h frame _ ⟨asked, rfl⟩
    have hblind := h frame asked
    cases hx : x frame with
    | ok a next =>
      rw [hx] at hblind
      obtain ⟨asked', hsame⟩ := hblind
      exact ⟨_, hsame, asked', rfl⟩
    | error e last =>
      rw [hx] at hblind
      exact fun _ => hblind
  · intro h frame asked
    have hsimulated := h frame _ ⟨asked, rfl⟩
    cases hx : x frame with
    | ok a next =>
      rw [hx] at hsimulated
      obtain ⟨_, hsame, asked', rfl⟩ := hsimulated
      exact ⟨asked', hsame⟩
    | error e last =>
      rw [hx] at hsimulated
      exact hsimulated trivial

/-- No handler looks at the questions asked before. -/
instance : BlindExecutable Handler where
  isBlind_run env byte handler :=
    Action.isBlind_iff_simulated.2 (Handler.simulated_run (.refl env.flags) byte handler)

end CoinScript
