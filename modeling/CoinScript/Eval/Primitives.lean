import CoinScript.Eval.Handler

/-!
# What handlers are made of

A handler looks at the main stack and changes it, moves elements between the stacks, uses up operations,
asks the checker and fails; it is put together from these few primitive actions. So what holds of the
primitives, and of any two actions in a row if it holds of both, holds of every handler.
-/

namespace CoinScript

/-- Whether a failure can be one of a handler. The others are failures of a push, of flow control, of a
script that has to be read, or of what is demanded at the end. -/
def EvalError.isOfHandler : EvalError → Bool
  | .evalFalse | .scriptSize | .pushSize | .disabledOpcode _ | .unbalancedConditional
  | .minimalData | .scriptHashMismatch | .witnessProgramMismatch | .witnessProgramWitnessEmpty
  | .injectedScript _ => false
  | _ => true

theorem EvalError.isOfHandler_ofStack (e : Stack.Error) : (ofStack e).isOfHandler := by
  cases e <;> rfl

namespace Action

/-- An action that is put together from primitive ones. -/
inductive Composed (env : Env) : {α : Type} → Action α → Prop where
  | value {α : Type} (a : α) : Composed env (pure a)
  | fail {α : Type} {e : EvalError} (he : e.isOfHandler) : Composed env (throw e : Action α)
  | bind {α β : Type} {x : Action α} {f : α → Action β} (hx : Composed env x)
      (hf : ∀ a, Composed env (f a)) : Composed env (x >>= f)
  | look {α : Type} (f : Stack Bytes → Except Stack.Error α) : Composed env (look f)
  | take {α : Type} (f : Stack Bytes → Except Stack.Error (α × Stack Bytes)) : Composed env (take f)
  | altPush (element : Bytes) : Composed env (altPush element)
  | altPop : Composed env altPop
  | charge (n : Nat) : Composed env (charge env.limits n)
  | askSignature (sig key : Bytes) : Composed env (askSignature env sig key)
  | askLockTime (lockTime : Int) : Composed env (askLockTime env lockTime)

variable {env : Env} {α : Type}

-- ---------------------------------------------------------------------------
-- Parts of handlers
-- ---------------------------------------------------------------------------

theorem composed_ite {p : Prop} [Decidable p] {x y : Action α} (hx : Composed env x)
    (hy : Composed env y) : Composed env (if p then x else y) := by
  split
  · exact hx
  · exact hy

theorem composed_alter (f : Stack Bytes → Except Stack.Error (Stack Bytes)) :
    Composed env (alter f) :=
  .take _

theorem composed_orFail {ε : Type} {toError : ε → EvalError} (h : ∀ e, (toError e).isOfHandler)
    (x : Except ε α) : Composed env (orFail toError x) := by
  cases x with
  | ok a => exact .value a
  | error e => exact .fail (h e)

theorem composed_verify (byte : UInt8) (success : Bool) : Composed env (verify byte success) :=
  composed_ite (.value _) (.fail rfl)

theorem composed_concludeCheck (verifying : Opcode) (byte : UInt8) (success : Bool) :
    Composed env (concludeCheck verifying byte success) :=
  composed_ite (composed_verify _ _) (composed_alter _)

theorem composed_readNum (flags : Flags) (maxSize : Nat) (element : Bytes) :
    Composed env (readNum flags maxSize element) :=
  composed_orFail (fun _ => rfl) _

theorem composed_popNum : Composed env (popNum env) :=
  .bind (.take _) fun _ => composed_readNum _ _ _

theorem composed_popMany (n : Nat) : Composed env (popMany n) := by
  induction n with
  | zero => exact .value _
  | succ n ih => exact .bind (.take _) fun _ => .bind ih fun _ => .value _

-- ---------------------------------------------------------------------------
-- Control and shuffles
-- ---------------------------------------------------------------------------

theorem composed_upgradableNop : Composed env (upgradableNop env) :=
  composed_ite (.fail rfl) (.value _)

theorem composed_checkLockTime : Composed env (checkLockTime env) := by
  refine composed_ite ?_ composed_upgradableNop
  refine .bind (.look _) fun top => .bind (composed_readNum _ _ top) fun lockTime => ?_
  refine composed_ite (.fail rfl) ?_
  exact .bind (.askLockTime lockTime) fun reached => composed_ite (.value _) (.fail rfl)

theorem composed_verifyTop (byte : UInt8) : Composed env (verifyTop byte) :=
  .bind (.look _) fun _ => .bind (composed_verify _ _) fun _ => .bind (.take _) fun _ => .value _

theorem composed_drop2 : Composed env drop2 :=
  .bind (.look _) fun _ => .bind (.take _) fun _ => .bind (.take _) fun _ => .value _

theorem composed_dup2 : Composed env dup2 :=
  .bind (.look _) fun _ => .bind (.look _) fun _ => .bind (.look _) fun _ =>
    .bind (composed_alter _) fun _ => composed_alter _

theorem composed_dup3 : Composed env dup3 :=
  .bind (.look _) fun _ => .bind (.look _) fun _ => .bind (.look _) fun _ =>
    .bind (.look _) fun _ => .bind (composed_alter _) fun _ =>
      .bind (composed_alter _) fun _ => composed_alter _

theorem composed_over2 : Composed env over2 :=
  .bind (.look _) fun _ => .bind (.look _) fun _ => .bind (.look _) fun _ =>
    .bind (composed_alter _) fun _ => composed_alter _

theorem composed_rot2 : Composed env rot2 :=
  .bind (.look _) fun _ => .bind (.take _) fun _ => .bind (.take _) fun _ =>
    .bind (composed_alter _) fun _ => composed_alter _

theorem composed_swap2 : Composed env swap2 :=
  .bind (.look _) fun _ => .bind (composed_alter _) fun _ => composed_alter _

theorem composed_ifDup : Composed env ifDup :=
  .bind (.look _) fun _ => composed_ite (composed_alter _) (.value _)

theorem composed_nip : Composed env nip :=
  .bind (.look _) fun _ => .bind (.take _) fun _ => .value _

theorem composed_pickRoll (byte : UInt8) : Composed env (pickRoll env byte) := by
  refine .bind (.look _) fun _ => .bind composed_popNum fun n => .bind (.look _) fun len => ?_
  refine composed_ite (.fail rfl) (composed_ite ?_ ?_)
  · exact .bind (.take _) fun _ => composed_alter _
  · exact .bind (.look _) fun _ => composed_alter _

theorem composed_rot : Composed env rot :=
  .bind (.look _) fun _ => .bind (.take _) fun _ => composed_alter _

theorem composed_tuck : Composed env tuck :=
  .bind (.look _) fun _ => .bind (.look _) fun _ => composed_alter _

/-- An element that is looked at is pushed in some form. -/
theorem composed_look_push (f : Stack Bytes → Except Stack.Error α) (g : α → Bytes) :
    Composed env (do push (g (← look f))) :=
  .bind (.look f) fun _ => composed_alter _

-- ---------------------------------------------------------------------------
-- Arithmetic and hashes
-- ---------------------------------------------------------------------------

theorem composed_equal (byte : UInt8) : Composed env (equal byte) :=
  .bind (.look _) fun _ => .bind (.take _) fun _ => .bind (.take _) fun _ =>
    composed_concludeCheck _ _ _

theorem composed_unaryNum (byte : UInt8) : Composed env (unaryNum env byte) := by
  refine .bind composed_popNum fun n => ?_
  split
  · exact composed_alter _
  · exact .fail rfl

theorem composed_binaryNum (byte : UInt8) : Composed env (binaryNum env byte) := by
  refine .bind (.look _) fun _ => .bind composed_popNum fun b => .bind composed_popNum fun a => ?_
  split
  · exact composed_ite (composed_verify _ _) (composed_alter _)
  · exact .fail rfl

theorem composed_within : Composed env (within env) :=
  .bind (.look _) fun _ => .bind composed_popNum fun _ => .bind composed_popNum fun _ =>
    .bind composed_popNum fun _ => composed_alter _

theorem composed_hash (byte : UInt8) : Composed env (hash byte) := by
  refine .bind (.take _) fun data => ?_
  split
  · exact composed_alter _
  · exact .fail rfl

-- ---------------------------------------------------------------------------
-- Signatures
-- ---------------------------------------------------------------------------

theorem composed_checkSignature (sig key : Bytes) : Composed env (checkSignature env sig key) :=
  .bind (composed_orFail (fun _ => rfl) _) fun _ =>
    .bind (composed_orFail (fun _ => rfl) _) fun _ => .askSignature sig key

theorem composed_checkSig (byte : UInt8) : Composed env (checkSig env byte) :=
  .bind (.look _) fun _ => .bind (.take _) fun key => .bind (.take _) fun sig =>
    .bind (composed_checkSignature sig key) fun _ => composed_concludeCheck _ _ _

theorem composed_findKey (sig : Bytes) (keys : List Bytes) :
    Composed env (findKey env sig keys) := by
  induction keys with
  | nil => exact .value _
  | cons key keys ih =>
    exact .bind (composed_checkSignature sig key) fun _ => composed_ite (.value _) ih

theorem composed_matchKeys (sigs keys : List Bytes) : Composed env (matchKeys env sigs keys) := by
  induction sigs generalizing keys with
  | nil => exact .value _
  | cons sig sigs ih =>
    refine .bind (composed_findKey sig keys) fun found => ?_
    cases found with
    | some keys => exact ih keys
    | none => exact .value _

theorem composed_popKeys : Composed env (popKeys env) := by
  refine .bind composed_popNum fun count => composed_ite (.fail rfl) ?_
  exact .bind (.charge _) fun _ => .bind (.look _) fun _ => .bind (composed_popMany _) fun _ =>
    .value _

theorem composed_popSigs (keyCount : Nat) : Composed env (popSigs env keyCount) := by
  refine .bind composed_popNum fun count => composed_ite (.fail rfl) ?_
  exact .bind (.look _) fun _ => .bind (composed_popMany _) fun _ => .value _

theorem composed_popDummy : Composed env (popDummy env) :=
  .bind (.take _) fun _ => composed_ite (.fail rfl) (.value _)

theorem composed_checkMultiSig (byte : UInt8) : Composed env (checkMultiSig env byte) :=
  .bind composed_popKeys fun keys => .bind (composed_popSigs _) fun sigs =>
    .bind composed_popDummy fun _ => .bind (composed_matchKeys sigs keys) fun _ =>
      composed_concludeCheck _ _ _

-- ---------------------------------------------------------------------------
-- Failures
-- ---------------------------------------------------------------------------

theorem isOfHandler_of_composed {x : Action α} (h : Composed env x) {frame last : Frame}
    {e : EvalError} (hx : x frame = .error e last) : e.isOfHandler := by
  induction h generalizing frame last with
  | value a => cases hx
  | fail he =>
    cases hx
    exact he
  | @bind _ _ x f _ _ ihx ihf =>
    simp only [bind, EStateM.bind] at hx
    cases hfirst : x frame with
    | ok a next =>
      rw [hfirst] at hx
      exact ihf a hx
    | error e next =>
      rw [hfirst] at hx
      cases hx
      exact ihx hfirst
  | look f =>
    simp only [Action.look] at hx
    split at hx
    · cases hx
    · cases hx
      exact EvalError.isOfHandler_ofStack _
  | take f =>
    simp only [Action.take] at hx
    split at hx
    · cases hx
    · cases hx
      exact EvalError.isOfHandler_ofStack _
  | altPush element =>
    simp only [Action.altPush] at hx
    split at hx
    · cases hx
    · cases hx
      exact EvalError.isOfHandler_ofStack _
  | altPop =>
    simp only [Action.altPop] at hx
    split at hx
    · cases hx
    · cases hx
      rfl
  | charge n =>
    simp only [Action.charge] at hx
    split at hx
    · cases hx
      rfl
    · cases hx
  | askSignature sig key => cases hx
  | askLockTime lockTime => cases hx

end Action

open CoinScript.Action in
/-- Every handler is put together from primitive actions. -/
theorem Handler.composed_run (env : Env) (byte : UInt8) (handler : Handler) :
    Composed env (handler.run env byte) := by
  cases handler with
  | pushEmpty => exact composed_alter _
  | pushConstant => exact composed_alter _
  | nop => exact .value _
  | upgradableNop => exact composed_upgradableNop
  | checkLockTime => exact composed_checkLockTime
  | verifyTop => exact composed_verifyTop byte
  | abort => exact .fail rfl
  | toAltStack => exact .bind (.take _) fun _ => .altPush _
  | fromAltStack => exact .bind .altPop fun _ => composed_alter _
  | drop => exact .bind (.take _) fun _ => .value _
  | drop2 => exact composed_drop2
  | dup => exact composed_look_push _ id
  | dup2 => exact composed_dup2
  | dup3 => exact composed_dup3
  | over2 => exact composed_over2
  | rot2 => exact composed_rot2
  | swap2 => exact composed_swap2
  | ifDup => exact composed_ifDup
  | pushDepth => exact composed_look_push _ fun n => ScriptNum.encode (n : Nat)
  | nip => exact composed_nip
  | overTop => exact composed_look_push _ id
  | pickRoll => exact composed_pickRoll byte
  | rot => exact composed_rot
  | swapTop => exact .bind (.look _) fun _ => composed_alter _
  | tuck => exact composed_tuck
  | pushSize => exact composed_look_push _ fun (x : Bytes) => ScriptNum.encode (x.length : Nat)
  | equal => exact composed_equal byte
  | unaryNum => exact composed_unaryNum byte
  | binaryNum => exact composed_binaryNum byte
  | within => exact composed_within
  | hash => exact composed_hash byte
  | checkSig => exact composed_checkSig byte
  | checkMultiSig => exact composed_checkMultiSig byte

end CoinScript
