import CoinScript.Eval.Primitives

/-!
# Actions never give operations back

The count of operations only grows: it is the same or larger after any action, whether the action
succeeds or fails.
-/

namespace CoinScript

namespace Action

variable {α : Type}

/-- The frame that an action leaves, also when it fails. -/
def after (x : Action α) (frame : Frame) : Frame :=
  match x frame with
  | .ok _ frame => frame
  | .error _ frame => frame

/-- The count of operations is not smaller after the action than before. -/
def Spends (x : Action α) : Prop := ∀ frame, frame.opCount ≤ (x.after frame).opCount

/-- Of the primitive actions, only one has to do with the count, and it adds to it. -/
theorem spends_of_composed {env : Env} {x : Action α} (h : Composed env x) : Spends x := by
  induction h with
  | value a => exact fun _ => Nat.le_refl _
  | fail _ => exact fun _ => Nat.le_refl _
  | @bind _ _ x f _ _ ihx ihf =>
    intro frame
    have hx := ihx frame
    simp only [after, bind, EStateM.bind] at hx ⊢
    cases hfirst : x frame with
    | ok a next =>
      have hf := ihf a next
      simp only [hfirst, after] at hx hf ⊢
      exact Nat.le_trans hx hf
    | error e next => simpa only [hfirst] using hx
  | look f =>
    intro frame
    cases hf : f frame.stack <;> simp [after, Action.look, hf]
  | take f =>
    intro frame
    cases hf : f frame.stack <;> simp [after, Action.take, hf]
  | altPush element =>
    intro frame
    cases hf : frame.altStack.push element <;> simp [after, Action.altPush, hf]
  | altPop =>
    intro frame
    cases hf : frame.altStack.pop <;> simp [after, Action.altPop, hf]
  | charge n =>
    intro frame
    by_cases hops : env.limits.maxOps < frame.opCount + n <;> simp [after, Action.charge, hops]
  | askSignature sig key => exact fun _ => Nat.le_refl _
  | askLockTime lockTime => exact fun _ => Nat.le_refl _

end Action

/-- No handler gives operations back. -/
theorem Handler.spends_run (env : Env) (byte : UInt8) (handler : Handler) :
    (handler.run env byte).Spends :=
  Action.spends_of_composed (handler.composed_run env byte)

end CoinScript
