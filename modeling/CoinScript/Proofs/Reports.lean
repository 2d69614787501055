import CoinScript.Proofs.Success

/-!
# What steps report

A step reports its entry first, and then every change of the program that it makes. Nothing else is
reported, and nothing that has been reported is taken back. This holds also of a step that fails, since
changes that are reported can still turn out to be too long for the program.
-/

namespace CoinScript

/-- Whether an event says that the program has changed. -/
def Event.isChange : Event → Bool
  | .redeemed _ _ | .expandedKey _ _ | .expandedScript _ _ _ => true
  | _ => false

namespace Machine

variable {α β : Type} {config : Config} {env : Env} {limits : Limits} {m m' m₁ m₂ m₃ : Machine}
  {entry : Entry}

/-- From one machine to the other, changes of the program are all that has been reported. -/
def ReportsChanges (m m' : Machine) : Prop :=
  ∃ events, m'.events = events ++ m.events ∧ ∀ event ∈ events, event.isChange

theorem ReportsChanges.of_eq (h : m₂.events = m₁.events) : m₁.ReportsChanges m₂ :=
  ⟨[], h, by simp⟩

theorem ReportsChanges.refl (m : Machine) : m.ReportsChanges m := .of_eq rfl

theorem ReportsChanges.trans (h₁ : m₁.ReportsChanges m₂) (h₂ : m₂.ReportsChanges m₃) :
    m₁.ReportsChanges m₃ := by
  obtain ⟨first, hfirst, hchanges⟩ := h₁
  obtain ⟨second, hsecond, hmore⟩ := h₂
  refine ⟨second ++ first, ?_, ?_⟩
  · rw [hsecond, hfirst, List.append_assoc]
  · intro event hevent
    rcases List.mem_append.1 hevent with h | h
    · exact hmore event h
    · exact hchanges event h

/-- The machine that a computation leaves, also when it fails. -/
def left (x : Step α) (m : Machine) : Machine :=
  match x m with
  | .ok _ m' => m'
  | .error _ m' => m'

/-- A computation reports nothing but changes of the program, whether it succeeds or fails. -/
def Quiet (x : Step α) : Prop := ∀ m : Machine, m.ReportsChanges (left x m)

/-! ## Combinations -/

theorem quiet_pure (a : α) : Quiet (pure a) := fun m => .refl m

theorem quiet_throw (e : EvalError) : Quiet (throw e : Step α) := fun m => .refl m

theorem quiet_get : Quiet (get : Step Machine) := fun m => .refl m

theorem quiet_bind {x : Step α} {f : α → Step β} (hx : Quiet x) (hf : ∀ a, Quiet (f a)) :
    Quiet (x >>= f) := by
  intro m
  have hfirst := hx m
  simp only [left, bind, EStateM.bind] at hfirst ⊢
  cases hxm : x m with
  | error e next =>
    rw [hxm] at hfirst
    exact hfirst
  | ok a next =>
    rw [hxm] at hfirst
    exact hfirst.trans (hf a next)

theorem quiet_ite {p : Prop} [Decidable p] {x y : Step α} (hx : Quiet x) (hy : Quiet y) :
    Quiet (if p then x else y) := by
  split
  · exact hx
  · exact hy

theorem quiet_onlyIf {condition : Bool} {x : Step Unit} (hx : Quiet x) :
    Quiet (onlyIf condition x) :=
  quiet_ite hx (quiet_pure ())

/-! ## Parts of a step -/

theorem quiet_act (x : Action α) : Quiet (act x) := by
  intro m
  unfold left act
  cases x m.frame with
  | ok a frame => exact .of_eq rfl
  | error e frame => exact .of_eq rfl

theorem quiet_report {event : Event} (h : event.isChange) : Quiet (report event) :=
  fun _ => ⟨[event], rfl, by simpa using h⟩

theorem quiet_runNext (entries : List Entry) : Quiet (runNext limits entries) := by
  intro m
  unfold left runNext
  by_cases h : limits.maxCommands < m.pending.length + entries.length
  · rw [if_pos h]
    exact .refl m
  · rw [if_neg h]
    exact .of_eq rfl

theorem quiet_runLast (entries : List Entry) : Quiet (runLast limits entries) := by
  intro m
  unfold left runLast
  by_cases h : limits.maxCommands < m.pending.length + entries.length
  · rw [if_pos h]
    exact .refl m
  · rw [if_neg h]
    exact .of_eq rfl

theorem quiet_parseInjected (body : Bytes) : Quiet (parseInjected body) := by
  intro m
  obtain ⟨pool, hparsed⟩ := parseInjected_eq body m
  unfold left
  rw [hparsed]
  cases Script.parseRaw body with
  | ok script => exact .of_eq rfl
  | error e => exact .of_eq rfl

theorem quiet_takeWitness : Quiet takeWitness := fun _ => .of_eq rfl

theorem quiet_redeem (hash : Digest 20) : Quiet (redeem limits hash) := by
  refine quiet_bind (fun _ => .of_eq rfl) fun _ => ?_
  refine quiet_bind (quiet_act _) fun body => ?_
  refine quiet_ite ?_ (quiet_throw _)
  refine quiet_bind (quiet_parseInjected body) fun script => ?_
  exact quiet_bind (quiet_report rfl) fun _ => quiet_runNext _

theorem quiet_redeemPending : Quiet (redeemPending limits) := by
  refine quiet_bind quiet_get fun m => ?_
  split
  · exact quiet_redeem _
  · exact quiet_pure ()

theorem quiet_expand (program : WitnessProgram) : Quiet (expand limits program) := by
  cases program with
  | pubKeyHash hash =>
    refine quiet_bind quiet_takeWitness fun witness => ?_
    exact quiet_bind (quiet_report rfl) fun _ => quiet_runLast _
  | scriptHash hash =>
    refine quiet_bind quiet_takeWitness fun witness => ?_
    split
    · exact quiet_throw _
    · rename_i body _
      refine quiet_ite ?_ (quiet_throw _)
      refine quiet_bind (quiet_parseInjected body) fun script => ?_
      exact quiet_bind (quiet_report rfl) fun _ => quiet_runLast _

theorem quiet_expandWitness : Quiet (expandWitness limits) := by
  refine quiet_bind quiet_get fun m => ?_
  split
  · refine quiet_bind (quiet_act _) fun _ => ?_
    exact quiet_bind (quiet_act _) fun _ => quiet_expand _
  · exact quiet_pure ()

theorem quiet_pushData (scripted : Bool) (data : Bytes) : Quiet (pushData env scripted data) := by
  refine quiet_ite (quiet_throw _) ?_
  refine quiet_bind quiet_get fun m => ?_
  refine quiet_ite (quiet_pure ()) (quiet_ite (quiet_throw _) ?_)
  refine quiet_bind (quiet_act _) fun _ => ?_
  refine quiet_bind (quiet_onlyIf quiet_redeemPending) fun _ => ?_
  exact quiet_onlyIf quiet_expandWitness

theorem quiet_openBranch (expected : Bool) : Quiet (openBranch expected) := by
  intro m
  unfold left openBranch
  cases m.isExecuting with
  | false => exact .of_eq rfl
  | true =>
    simp only [if_true]
    cases m.frame.stack.pop with
    | error e => exact .refl m
    | ok taken => exact .of_eq rfl

theorem quiet_flipBranch : Quiet flipBranch := by
  intro m
  unfold left flipBranch
  cases m.branches.flip? with
  | none => exact .refl m
  | some branches => exact .of_eq rfl

theorem quiet_closeBranch : Quiet closeBranch := by
  intro m
  unfold left closeBranch
  cases m.branches.leave? with
  | none => exact .refl m
  | some branches => exact .of_eq rfl

theorem quiet_execute (byte : UInt8) : Quiet (execute config byte) := by
  refine quiet_bind quiet_get fun m => ?_
  refine quiet_ite ?_ (quiet_pure ())
  split
  · exact quiet_throw _
  · exact quiet_act _

theorem quiet_runOpcode (byte : UInt8) : Quiet (runOpcode config byte) := by
  unfold runOpcode
  split
  · exact quiet_throw _
  · refine quiet_bind (quiet_onlyIf (quiet_act _)) fun _ => ?_
    rcases dispatch_cases config byte with ⟨expected, h⟩ | h | h | h <;> rw [h]
    · exact quiet_openBranch expected
    · exact quiet_flipBranch
    · exact quiet_closeBranch
    · exact quiet_execute byte

theorem quiet_checkSize : Quiet (checkSize limits) := by
  intro m
  unfold left checkSize
  split <;> rename_i m' hm <;> split at hm <;> cases hm <;> exact .refl m

theorem quiet_runEntry (entry : Entry) : Quiet (runEntry config entry) := by
  match entry with
  | .command (.push data) => exact quiet_pushData true data
  | .command (.opcode byte) => exact quiet_runOpcode byte
  | .witness data => exact quiet_pushData false data

/-- Behind its entry a step reports only changes of the program. -/
theorem reportsChanges_of_step (config : Config) (entry : Entry) (m : Machine) :
    (m.reported (entryEvent m.frame.stack.length entry)).ReportsChanges
      (left (step config entry) m) :=
  quiet_bind (quiet_runEntry entry) (fun _ => quiet_checkSize)
    (m.reported (entryEvent m.frame.stack.length entry))

/-- What has been reported stays reported. -/
theorem step_events (h : step config entry m = .ok () m') : m.events ⊆ m'.events := by
  obtain ⟨events, hevents, -⟩ := reportsChanges_of_step config entry m
  rw [left, h] at hevents
  intro event hevent
  rw [hevents]
  exact List.mem_append_right _ (List.mem_cons_of_mem _ hevent)

end Machine

end CoinScript
