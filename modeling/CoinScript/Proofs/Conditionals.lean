import CoinScript.Proofs.Skipping

/-!
# The meaning of conditionals

Open conditionals are a list of truth values that commands change one by one. This module shows that a
conditional whose arms are well nested means what its structure says: the condition is taken off the
stack, and then the arms run that it selects, as if they stood there alone. The arms that are not selected
only use up operations.
-/

namespace CoinScript

theorem Stack.length_le_of_pop {α : Type} {s t : Stack α} {a : α} (h : s.pop = .ok (a, t)) :
    t.length ≤ s.length := by
  obtain ⟨elements, capacity, length, hlength⟩ := s
  cases elements with
  | nil => cases h
  | cons top rest =>
    cases h
    exact Nat.sub_le _ _

/-! ## Fewer operations used -/

/-- The stacks are the same, and no more operations are used. -/
structure Frame.Trails (frame ahead : Frame) : Prop where
  stack_eq : frame.stack = ahead.stack
  altStack_eq : frame.altStack = ahead.altStack
  opCount_le : frame.opCount ≤ ahead.opCount

/-- An action that is put together from primitive ones does the same where fewer operations are used, but
for running out of them. -/
theorem Action.trails_of_composed {env : Env} {α : Type} {x : Action α} (hx : Composed env x)
    {frame ahead : Frame} (h : frame.Trails ahead) :
    match x ahead with
    | .ok a ahead' => ∃ next, x frame = .ok a next ∧ next.Trails ahead'
    | .error e _ => e = .opCount ∨ ∃ last, x frame = .error e last := by
  induction hx generalizing frame ahead with
  | value a => exact ⟨frame, rfl, h⟩
  | fail _ => exact .inr ⟨frame, rfl⟩
  | @bind _ _ x f _ _ ihx ihf =>
    have hfirst := ihx h
    simp only [bind, EStateM.bind]
    cases hahead : x ahead with
    | error e last =>
      rw [hahead] at hfirst
      refine hfirst.imp_right ?_
      rintro ⟨last', hlast⟩
      rw [hlast]
      exact ⟨last', rfl⟩
    | ok a ahead' =>
      rw [hahead] at hfirst
      obtain ⟨next, hnext, htrails⟩ := hfirst
      rw [hnext]
      exact ihf a htrails
  | look f =>
    simp only [look, h.stack_eq]
    cases f ahead.stack with
    | ok a => exact ⟨frame, rfl, h⟩
    | error e => exact .inr ⟨frame, rfl⟩
  | take f =>
    simp only [take, h.stack_eq]
    cases f ahead.stack with
    | ok taken => exact ⟨_, rfl, rfl, h.altStack_eq, h.opCount_le⟩
    | error e => exact .inr ⟨frame, rfl⟩
  | altPush element =>
    simp only [altPush, h.altStack_eq]
    cases ahead.altStack.push element with
    | ok altStack => exact ⟨_, rfl, h.stack_eq, rfl, h.opCount_le⟩
    | error e => exact .inr ⟨frame, rfl⟩
  | altPop =>
    simp only [altPop, h.altStack_eq]
    cases ahead.altStack.pop with
    | ok taken => exact ⟨_, rfl, h.stack_eq, rfl, h.opCount_le⟩
    | error e => exact .inr ⟨frame, rfl⟩
  | charge n =>
    have hle := Nat.add_le_add_right h.opCount_le n
    by_cases hops : env.limits.maxOps < ahead.opCount + n
    · simp only [charge, if_pos hops, true_or]
    · simp only [charge, if_neg hops, if_neg (Nat.not_lt.2 (Nat.le_trans hle (Nat.le_of_not_lt hops)))]
      exact ⟨_, rfl, h.stack_eq, h.altStack_eq, hle⟩
  | askSignature sig key => exact ⟨_, rfl, h.stack_eq, h.altStack_eq, h.opCount_le⟩
  | askLockTime lockTime => exact ⟨_, rfl, h.stack_eq, h.altStack_eq, h.opCount_le⟩

/-- The arms that run, one after the other, if the first one runs or not. -/
def Script.taken : Bool → List Script → Script
  | _, [] => []
  | runs, arm :: others => (if runs then arm else []) ++ taken (!runs) others

namespace Plain

variable {config : Config} {s t : Plain} {c : Command} {byte : UInt8} {arms arms' base : List Bool}
  {R R' : Plain → Plain → Prop}

/-- The first result is related to the second, or it is the same failure, or the second ran out of
operations. -/
def Follows (R : Plain → Plain → Prop) (x y : Except EvalError Plain) : Prop :=
  match y with
  | .ok t => ∃ s, x = .ok s ∧ R s t
  | .error e => e = .opCount ∨ x = .error e

theorem follows_ok (h : R s t) : Follows R (.ok s) (.ok t) := ⟨s, rfl, h⟩

theorem follows_error (e : EvalError) : Follows R (.error e) (.error e) := .inr rfl

theorem follows_mono {x y : Except EvalError Plain} (h : Follows R x y) (hR : ∀ s t, R s t → R' s t) :
    Follows R' x y := by
  cases y with
  | ok t =>
    obtain ⟨s, hx, hst⟩ := h
    exact ⟨s, hx, hR s t hst⟩
  | error e => exact h

theorem follows_bind {x y : Except EvalError Plain} {f g : Plain → Except EvalError Plain}
    (hx : Follows R x y) (hf : ∀ s t, y = .ok t → R s t → Follows R' (f s) (g t)) :
    Follows R' (x >>= f) (y >>= g) := by
  cases y with
  | ok t =>
    obtain ⟨s, rfl, hst⟩ := hx
    exact hf s t rfl hst
  | error e => exact hx.imp_right fun hx => by rw [hx]; rfl

/-- The stacks are the same, no more operations are used, and the arms are given. -/
structure Trails (arms arms' : List Bool) (s t : Plain) : Prop where
  frame : s.frame.Trails t.frame
  branches_eq : s.branches = .ofList arms
  branches_eq' : t.branches = .ofList arms'

theorem Trails.isExecuting_eq (h : Trails arms arms' s t) (harms : arms.all id = arms'.all id) :
    s.isExecuting = t.isExecuting := by
  rw [isExecuting, isExecuting, h.branches_eq, h.branches_eq', Branches.isRunning_eq,
    Branches.isRunning_eq]
  exact harms

theorem follows_act {env : Env} {x : Action Unit} (hx : Action.Composed env x)
    (h : Trails arms arms' s t) : Follows (Trails arms arms') (s.act x) (t.act x) := by
  have hframe := Action.trails_of_composed hx h.frame
  unfold act
  cases hahead : x t.frame with
  | ok a ahead =>
    rw [hahead] at hframe
    obtain ⟨next, hnext, htrails⟩ := hframe
    rw [hnext]
    exact follows_ok ⟨⟨htrails.stack_eq, htrails.altStack_eq, htrails.opCount_le⟩, h.branches_eq,
      h.branches_eq'⟩
  | error e last =>
    rw [hahead] at hframe
    refine hframe.imp_right ?_
    rintro ⟨last', hlast⟩
    rw [hlast]

theorem follows_push {env : Env} {data : Bytes} (h : Trails arms arms' s t)
    (harms : arms.all id = arms'.all id) :
    Follows (Trails arms arms') (s.push env data) (t.push env data) := by
  unfold push
  rw [h.isExecuting_eq harms]
  split
  · exact follows_error _
  · split
    · exact follows_ok h
    · split
      · exact follows_error _
      · have hpush : Action.Composed env (Action.push data) := Action.composed_alter _
        exact follows_act hpush h

theorem follows_execute (h : Trails arms arms' s t) (harms : arms.all id = arms'.all id) :
    Follows (Trails arms arms') (s.execute config byte) (t.execute config byte) := by
  unfold execute
  rw [h.isExecuting_eq harms]
  split
  · split
    · exact follows_error _
    · exact follows_act (Handler.composed_run config.toEnv byte _) h
  · exact follows_ok h

theorem follows_count (h : Trails arms arms' s t) :
    Follows (Trails arms arms') (s.count config.limits byte) (t.count config.limits byte) := by
  unfold count
  split
  · have hcharge : Action.Composed config.toEnv (.charge config.limits 1) := .charge 1
    exact follows_act hcharge h
  · exact follows_ok h

theorem follows_openBranch {expected : Bool} (h : Trails arms arms' s t)
    (harms : arms.all id = arms'.all id) :
    Follows (fun s t => ∃ runs, Trails (runs :: arms) (runs :: arms') s t)
      (s.openBranch expected) (t.openBranch expected) := by
  have hopened (runs : Bool) (stack : Stack Bytes) :
      Trails (runs :: arms) (runs :: arms') { s with stack, branches := s.branches.enter runs }
        { t with stack, branches := t.branches.enter runs } := by
    refine ⟨⟨rfl, h.frame.altStack_eq, h.frame.opCount_le⟩, ?_, ?_⟩
    · rw [Branches.enter_eq, h.branches_eq, Branches.arms_ofList]
    · rw [Branches.enter_eq, h.branches_eq', Branches.arms_ofList]
  have hstack : s.stack = t.stack := h.frame.stack_eq
  unfold openBranch
  rw [h.isExecuting_eq harms, hstack]
  split
  · split
    · exact follows_error _
    · exact follows_ok ⟨_, hopened _ _⟩
  · exact follows_ok ⟨false, hopened false t.stack⟩

theorem follows_alterBranch {f : Branches → Option Branches} {arms₁ arms₁' : List Bool}
    (h : Trails arms arms' s t) (hs : f (.ofList arms) = some (.ofList arms₁))
    (ht : f (.ofList arms') = some (.ofList arms₁')) :
    Follows (Trails arms₁ arms₁') (s.alterBranch f) (t.alterBranch f) := by
  unfold alterBranch
  rw [h.branches_eq, h.branches_eq', hs, ht]
  exact follows_ok ⟨⟨h.frame.stack_eq, h.frame.altStack_eq, h.frame.opCount_le⟩, rfl, rfl⟩

/-! ## One more open conditional -/

/-- The second state is within one more arm, which runs, and `depth` conditionals are open in this arm. -/
def Within (base : List Bool) (depth : Nat) (s t : Plain) : Prop :=
  ∃ inner : List Bool, inner.length = depth ∧ Trails (inner ++ base) (inner ++ true :: base) s t

theorem all_append_true (inner base : List Bool) :
    (inner ++ base).all id = (inner ++ true :: base).all id := by
  simp

variable {depth depth' : Nat}

theorem follows_dispatch (h : Within base depth s t)
    (hdepth : (Command.opcode byte).nextDepth? depth = some depth') :
    Follows (Within base depth') (s.dispatch config byte) (t.dispatch config byte) := by
  obtain ⟨inner, hinner, h⟩ := h
  have hexec := all_append_true inner base
  cases hstraight : (Command.opcode byte).isStraight with
  | true =>
    rw [Command.nextDepth?_of_isStraight hstraight] at hdepth
    cases hdepth
    rw [dispatch_of_isStraight hstraight]
    exact follows_mono (follows_execute h hexec) fun s t h => ⟨inner, hinner, h⟩
  | false =>
    have hopen {expected : Bool} (hopened : depth' = depth + 1) :
        Follows (Within base depth') (s.openBranch expected) (t.openBranch expected) := by
      refine follows_mono (follows_openBranch h hexec) ?_
      rintro s t ⟨runs, h⟩
      refine ⟨runs :: inner, ?_, h⟩
      rw [List.length_cons, hinner, hopened]
    unfold dispatch
    unfold Command.nextDepth? at hdepth
    rcases Command.flowControl_of_isStraight hstraight with hop | hop | hop | hop <;>
      simp only [hop] at hdepth ⊢
    · exact hopen (Option.some.inj hdepth).symm
    · exact hopen (Option.some.inj hdepth).symm
    · split at hdepth
      · cases hdepth
      · rename_i hpos
        cases hdepth
        obtain ⟨arm, inner, rfl⟩ := List.exists_cons_of_length_pos
          (Nat.pos_of_ne_zero (hinner ▸ hpos))
        refine follows_mono (follows_alterBranch h (Branches.flip?_ofList_cons _ _)
          (Branches.flip?_ofList_cons _ _)) ?_
        exact fun s t h => ⟨(!arm) :: inner, hinner, h⟩
    · split at hdepth
      · cases hdepth
      · rename_i hpos
        cases hdepth
        obtain ⟨arm, inner, rfl⟩ := List.exists_cons_of_length_pos
          (Nat.pos_of_ne_zero (hinner ▸ hpos))
        refine follows_mono (follows_alterBranch h (Branches.leave?_ofList_cons _ _)
          (Branches.leave?_ofList_cons _ _)) ?_
        exact fun s t h => ⟨inner, by rw [← hinner, List.length_cons, Nat.add_sub_cancel], h⟩

theorem follows_checkSize (h : Within base depth s t) :
    Follows (Within base depth) (s.checkSize config.limits) (t.checkSize config.limits) := by
  obtain ⟨inner, hinner, htrails⟩ := h
  have hstack : s.stack = t.stack := htrails.frame.stack_eq
  have haltStack : s.altStack = t.altStack := htrails.frame.altStack_eq
  unfold checkSize
  rw [hstack, haltStack]
  split
  · exact follows_error _
  · exact follows_ok ⟨inner, hinner, htrails⟩

/-- A command does the same within an arm that runs, as long as it does not reach out of it. -/
theorem follows_step (h : Within base depth s t) (hdepth : c.nextDepth? depth = some depth') :
    Follows (Within base depth') (s.step config c) (t.step config c) := by
  refine follows_bind ?_ fun s t _ h => follows_checkSize h
  cases c with
  | push data =>
    obtain ⟨inner, hinner, h⟩ := h
    cases hdepth
    exact follows_mono (follows_push h (all_append_true inner base)) fun s t h => ⟨inner, hinner, h⟩
  | opcode byte =>
    simp only [command, opcode]
    cases Machine.forbidden? byte with
    | some e => exact follows_error e
    | none =>
      obtain ⟨inner, hinner, h⟩ := h
      exact follows_bind (follows_count h) fun s t _ h => follows_dispatch ⟨inner, hinner, h⟩ hdepth

theorem follows_steps {script : Script} (h : Within base depth s t)
    (hdepth : script.depth? depth = some depth') :
    Follows (Within base depth') (s.steps config script) (t.steps config script) := by
  induction script generalizing s t depth with
  | nil =>
    cases hdepth
    exact follows_ok h
  | cons c script ih =>
    rw [Script.depth?_cons] at hdepth
    cases hnext : c.nextDepth? depth with
    | none =>
      rw [hnext] at hdepth
      cases hdepth
    | some next =>
      rw [hnext] at hdepth
      exact follows_bind (follows_step h hnext) fun s t _ h => ih h hdepth

/-! ## Arms -/

variable {script first : Script} {others : List Script} {opener : Opcode} {runs : Bool}

theorem size_of_step (h : s.step config c = .ok t) : t.frame.size ≤ config.limits.maxStackSize := by
  obtain ⟨next, -, h⟩ := bind_eq_ok h
  unfold checkSize at h
  split at h
  · cases h
  · rename_i hsize
    cases h
    exact Nat.le_of_not_lt hsize

theorem size_of_steps (hsize : s.frame.size ≤ config.limits.maxStackSize)
    (h : s.steps config script = .ok t) : t.frame.size ≤ config.limits.maxStackSize := by
  induction script generalizing s with
  | nil =>
    cases h
    exact hsize
  | cons c script ih =>
    obtain ⟨next, hstep, h⟩ := bind_eq_ok h
    exact ih (size_of_step hstep) h

section Arms

variable (hp2sh : config.flags.p2sh = false) (hwitness : config.flags.witness = false)
include hp2sh hwitness

/-- Commands of which nothing is executed change the arms, and nothing else that matters. -/
theorem follows_passes {after : List Bool} (h : Trails arms arms' s t)
    (hpasses : Machine.Passes config script (.ofList arms') (.ofList after))
    (hsize : t.frame.size ≤ config.limits.maxStackSize) :
    Follows (Trails arms after) (.ok s) (t.steps config script) := by
  let m : Machine := ⟨t.frame, script.map .command ++ [], t.branches, [], .empty, []⟩
  have hmirrors := Machine.process_mirrors config hp2sh hwitness script [] (m := m) rfl
  have hplain : m.plain = t := rfl
  rcases hpasses m [] h.branches_eq' rfl hsize with ⟨hpassed, -⟩ | ⟨⟨last, hfailed⟩, -⟩
  · rw [hpassed, hplain] at hmirrors
    rw [hmirrors.1]
    refine follows_ok ⟨⟨h.frame.stack_eq, h.frame.altStack_eq, ?_⟩, h.branches_eq, rfl⟩
    exact Nat.le_trans h.frame.opCount_le (Nat.le_add_right _ _)
  · rw [hfailed, hplain] at hmirrors
    rw [hmirrors]
    exact .inl rfl

/-- An arm is run if it is the one that runs, and passed otherwise. -/
theorem follows_arm (hnested : script.IsNested config.limits.maxElementSize)
    (h : Trails base (runs :: base) s t) (hsize : t.frame.size ≤ config.limits.maxStackSize) :
    Follows (Trails base (runs :: base)) (s.steps config (if runs then script else []))
      (t.steps config script) := by
  cases runs with
  | false =>
    have hskipped : (Branches.ofList (false :: base)).isRunning = false := by
      rw [Branches.isRunning_eq]
      rfl
    exact follows_passes hp2sh hwitness h (Machine.passes_of_isNested hnested hskipped) hsize
  | true =>
    refine follows_mono (follows_steps ⟨[], rfl, h⟩ (hnested.depth?_eq 0)) ?_
    rintro s t ⟨inner, hinner, h⟩
    rw [List.length_eq_zero_iff.1 hinner] at h
    exact h

/-- From the start of an arm to the end of the conditional, the arms run that are taken. -/
theorem follows_arms (hfirst : first.IsNested config.limits.maxElementSize)
    (hothers : ∀ arm ∈ others, arm.IsNested config.limits.maxElementSize)
    (h : Trails base (runs :: base) s t) (hsize : t.frame.size ≤ config.limits.maxStackSize) :
    Follows (Trails base base) (s.steps config (Script.taken runs (first :: others)))
      (t.steps config (first ++ others.flatMap ([.ofOpcode .opElse] ++ ·) ++ [.ofOpcode .opEndIf])) := by
  -- Behind an arm there is the end of the conditional or another arm, which is taken if this one is not.
  induction others generalizing first runs s t with
  | nil =>
    rw [List.flatMap_nil, List.append_nil, Script.taken, steps_append, steps_append]
    refine follows_bind (follows_arm hp2sh hwitness hfirst h hsize) fun s t ht h => ?_
    exact follows_passes hp2sh hwitness h (Machine.passes_endIf (Branches.leave?_ofList_cons _ _))
      (size_of_steps hsize ht)
  | cons other others ih =>
    obtain ⟨hother, hothers⟩ := List.forall_mem_cons.1 hothers
    rw [List.flatMap_cons, List.append_assoc, List.append_assoc, List.append_assoc,
      ← List.append_assoc other, Script.taken, steps_append, steps_append]
    refine follows_bind (follows_arm hp2sh hwitness hfirst h hsize) fun s t ht h => ?_
    have hsize := size_of_steps hsize ht
    rw [steps_append]
    have helse := follows_passes hp2sh hwitness h
      (Machine.passes_else (Branches.flip?_ofList_cons _ _)) hsize
    exact follows_bind helse fun s t ht h => ih hother hothers h (size_of_steps hsize ht)

end Arms

section Condition

variable {top : Bytes} {below : Stack Bytes} (hexec : s.isExecuting)
  (hpop : s.stack.pop = .ok (top, below))
  (hopener : opener = .opIf ∧ runs = Element.isTrue top ∨
    opener = .opNotIf ∧ runs = !Element.isTrue top)
include hexec hpop hopener

theorem dispatch_opener :
    s.dispatch config opener.byte =
      .ok { s with stack := below, branches := .ofList (runs :: s.branches.arms) } := by
  have hopened (expected : Bool) : s.openBranch expected = .ok { s with
      stack := below
      branches := .ofList ((Element.isTrue top == expected) :: s.branches.arms) } := by
    simp only [openBranch, if_pos hexec, hpop, Branches.enter_eq]
  rcases hopener with ⟨rfl, rfl⟩ | ⟨rfl, rfl⟩
  · have hruns : (Element.isTrue top == true) = Element.isTrue top := by simp
    rw [← hruns]
    exact hopened true
  · have hruns : (Element.isTrue top == false) = !Element.isTrue top := by simp
    rw [← hruns]
    exact hopened false

/-- The condition is taken off the stack and says whether the first arm runs. -/
theorem follows_opener (hsize : s.frame.size ≤ config.limits.maxStackSize) :
    Follows (Trails s.branches.arms (runs :: s.branches.arms)) (.ok { s with stack := below })
      (s.steps config [.ofOpcode opener]) := by
  have hbyte : Machine.forbidden? opener.byte = none ∧ Opcode.isCounted opener.byte = true := by
    rcases hopener with ⟨rfl, -⟩ | ⟨rfl, -⟩ <;> decide
  have hbelow : ¬config.limits.maxStackSize < below.length + s.altStack.length := by
    have hlength := Stack.length_le_of_pop hpop
    simp only [Frame.size, frame] at hsize
    omega
  rw [steps_cons, step]
  simp only [command, Command.ofOpcode, opcode, hbyte.1, count_eq, hbyte.2, true_and,
    Bool.toNat_true]
  by_cases hops : config.limits.maxOps < s.opCount + 1
  · rw [if_pos hops]
    exact .inl rfl
  · have hdispatch : ({ s with opCount := s.opCount + 1 } : Plain).dispatch config opener.byte =
        .ok { s with
          stack := below
          opCount := s.opCount + 1
          branches := .ofList (runs :: s.branches.arms) } :=
      dispatch_opener (s := { s with opCount := s.opCount + 1 }) hexec hpop hopener
    rw [if_neg hops]
    simp only [bind, Except.bind, hdispatch, checkSize, if_neg hbelow]
    exact follows_ok ⟨⟨rfl, rfl, Nat.le_succ _⟩, (Branches.ofList_arms _).symm, rfl⟩

/-- A conditional does what the arms do that its condition selects. -/
theorem follows_conditional (hp2sh : config.flags.p2sh = false)
    (hwitness : config.flags.witness = false)
    (hfirst : first.IsNested config.limits.maxElementSize)
    (hothers : ∀ arm ∈ others, arm.IsNested config.limits.maxElementSize)
    (hsize : s.frame.size ≤ config.limits.maxStackSize) :
    Follows (Trails s.branches.arms s.branches.arms)
      (({ s with stack := below } : Plain).steps config (Script.taken runs (first :: others)))
      (s.steps config (Script.conditional opener first others)) := by
  rw [Script.conditional, List.append_assoc, List.append_assoc, ← List.append_assoc first, steps_append]
  have hopened : Follows (Trails s.branches.arms (runs :: s.branches.arms))
      (.ok { s with stack := below }) (s.steps config [.ofOpcode opener]) :=
    follows_opener hexec hpop hopener hsize
  exact follows_bind hopened fun s' t ht h =>
    follows_arms hp2sh hwitness hfirst hothers h (size_of_steps hsize ht)

end Condition

end Plain

namespace Machine

variable {config : Config} {m m' : Machine} {rest : List Entry} {n : Nat}

/-! ## Conditionals in a program -/

/-- Two parts of runs fail in the same way, or they leave the same stacks, the same open conditionals and
the same program. -/
inductive EndAlike : EStateM.Result EvalError Machine Unit → EStateM.Result EvalError Machine Unit → Prop
  where
  | ok {m n : Machine} (hstack : m.frame.stack = n.frame.stack)
      (haltStack : m.frame.altStack = n.frame.altStack) (hbranches : m.branches = n.branches)
      (hpending : m.pending = n.pending) : EndAlike (.ok () m) (.ok () n)
  | error {m n : Machine} {e : EvalError} : EndAlike (.error e m) (.error e n)

/-- Between steps the stacks are never too large. -/
theorem size_of_process (hsize : m.frame.size ≤ config.limits.maxStackSize)
    (h : process config n m = .ok () m') : m'.frame.size ≤ config.limits.maxStackSize := by
  induction n generalizing m with
  | zero =>
    cases h
    exact hsize
  | succ n ih =>
    cases hp : m.pending with
    | nil =>
      rw [process, hp] at h
      cases h
      exact hsize
    | cons entry rest =>
      rw [process_succ hp] at h
      split at h
      · rename_i hstep
        exact ih (step_ok hstep).2 h
      · cases h

section Conditional

variable {opener : Opcode} {first : Script} {others : List Script} {top : Bytes} {below : Stack Bytes}
  {runs : Bool}

/-- A conditional ends like the arms that its condition selects, on the stack without the condition. -/
theorem process_conditional (hp2sh : config.flags.p2sh = false)
    (hwitness : config.flags.witness = false)
    (hfirst : first.IsNested config.limits.maxElementSize)
    (hothers : ∀ arm ∈ others, arm.IsNested config.limits.maxElementSize) (hexec : m.isExecuting)
    (hpop : m.frame.stack.pop = .ok (top, below)) (hsize : m.frame.size ≤ config.limits.maxStackSize)
    (hopener : opener = .opIf ∧ runs = Element.isTrue top ∨
      opener = .opNotIf ∧ runs = !Element.isTrue top)
    (hp : m.pending = (Script.conditional opener first others).map .command ++ rest)
    (hops : ∀ last, process config (Script.conditional opener first others).length m ≠
      .error .opCount last) :
    EndAlike (process config (Script.conditional opener first others).length m)
      (process config (Script.taken runs (first :: others)).length { m with
        frame := { m.frame with stack := below }
        pending := (Script.taken runs (first :: others)).map .command ++ rest }) := by
  have hfollows : Plain.Follows (Plain.Trails m.branches.arms m.branches.arms)
      (({ m.plain with stack := below } : Plain).steps config (Script.taken runs (first :: others)))
      (m.plain.steps config (Script.conditional opener first others)) :=
    Plain.follows_conditional (s := m.plain) hexec hpop hopener hp2sh hwitness hfirst hothers hsize
  have hwhole := process_mirrors config hp2sh hwitness _ rest hp
  have htaken := process_mirrors config hp2sh hwitness (Script.taken runs (first :: others)) rest
    (m := { m with
      frame := { m.frame with stack := below }
      pending := (Script.taken runs (first :: others)).map .command ++ rest }) rfl
  -- Only what the plain machine says of the arms is needed from here on.
  generalize process config (Script.taken runs (first :: others)).length _ = result at htaken ⊢
  cases hresult : process config (Script.conditional opener first others).length m with
  | error e last =>
    rw [hresult] at hwhole
    rw [hwhole] at hfollows
    rcases hfollows with rfl | hfailed
    · exact absurd hresult (hops last)
    · cases result with
      | ok _ n => cases htaken.1.symm.trans hfailed
      | error e' last' =>
        cases htaken.symm.trans hfailed
        exact .error
  | ok _ m' =>
    rw [hresult] at hwhole
    rw [hwhole.1] at hfollows
    obtain ⟨s, hsteps, htrails⟩ := hfollows
    cases result with
    | error e last => cases htaken.symm.trans hsteps
    | ok _ n =>
      obtain rfl : n.plain = s := Except.ok.inj (htaken.1.symm.trans hsteps)
      exact .ok htrails.frame.stack_eq.symm htrails.frame.altStack_eq.symm
        (htrails.branches_eq'.trans htrails.branches_eq.symm) (hwhole.2.trans htaken.2.symm)

end Conditional

end Machine

open Machine in
/-- Where commands are not executed, a well nested script only uses up its operations, and it fails only if
these are too many; the program, the stacks, the witness and the open conditionals stay as they are.
Without the rules on scripts given by their hash and on witness programs, a conditional with two arms ends
like the arm that its condition selects, on the stack without the condition, unless it runs out of
operations. The size of the stacks that is demanded is what every step leaves. -/
theorem conditionals_structured (config : Config) :
    (∀ (m : Machine) (body : Script) (rest : List Entry), m.isExecuting = false →
        body.IsNested config.limits.maxElementSize → m.pending = body.map .command ++ rest →
        m.frame.size ≤ config.limits.maxStackSize →
        process config body.length m = .ok () { m with
              frame := { m.frame with opCount := m.frame.opCount + body.counted }
              pending := rest
              events := (body.map fun c => Event.step c m.frame.stack.length).reverse ++ m.events } ∧
            (body.counted = 0 ∨ m.frame.opCount + body.counted ≤ config.limits.maxOps) ∨
          (∃ last, process config body.length m = .error .opCount last) ∧
            config.limits.maxOps < m.frame.opCount + body.counted) ∧
      (config.flags.p2sh = false → config.flags.witness = false →
        ∀ (m : Machine) (opener : Opcode) (first second : Script) (rest : List Entry) (top : Bytes)
          (below : Stack Bytes) (runs : Bool), m.isExecuting →
          first.IsNested config.limits.maxElementSize → second.IsNested config.limits.maxElementSize →
          m.pending = (Script.conditional opener first [second]).map .command ++ rest →
          m.frame.stack.pop = .ok (top, below) → m.frame.size ≤ config.limits.maxStackSize →
          (opener = .opIf ∧ runs = Element.isTrue top ∨
            opener = .opNotIf ∧ runs = !Element.isTrue top) →
          let arm := if runs then first else second
          (∀ last, process config (Script.conditional opener first [second]).length m ≠
            .error .opCount last) →
          EndAlike (process config (Script.conditional opener first [second]).length m)
            (process config arm.length { m with
              frame := { m.frame with stack := below }
              pending := arm.map .command ++ rest })) ∧
      ∀ script witness pool n m,
        process config n { start config.limits script witness with pool } = .ok () m →
        m.frame.size ≤ config.limits.maxStackSize := by
  refine ⟨?_, ?_, ?_⟩
  · intro m body rest hskipped hnested hp hsize
    exact passes_of_isNested hnested hskipped m rest rfl hp hsize
  · intro hp2sh hwitness m opener first second rest top below runs hexec hfirst hsecond hp hpop hsize
      hopener arm hops
    have htaken : Script.taken runs [first, second] = arm := by
      cases runs <;> simp [Script.taken, arm]
    rw [← htaken]
    exact process_conditional hp2sh hwitness hfirst (List.forall_mem_singleton.2 hsecond) hexec hpop
      hsize hopener hp hops
  · intro script witness pool n m h
    exact size_of_process (Nat.zero_le _) h

open Machine in
/-- Of a conditional whose other arm fails, neither arm runs if it is skipped, and only the first one if it
is executed on a true element. -/
theorem conditionals_structured_return :
    let config : Config := { flags := .none, sighash := sha256 [] }
    let conditional := Script.conditional .opIf [.push [0x05]] [[.ofOpcode .opReturn]]
    let m : Machine :=
      { frame := { Frame.new {} with stack := .ofList [[0x01]] 1000 }
        pending := conditional.map .command
        witness := []
        pool := .empty }
    (∃ last, process config 5 { m with branches := .ofList [false] } = .ok () last ∧
        last.frame = { m.frame with opCount := 4 }) ∧
      EndAlike (process config 5 m)
        (process config 1 { m with
          frame := { m.frame with stack := .ofList [] 1000 }
          pending := [.command (.push [0x05])] }) := by
  intro config conditional m
  have hfirst : Script.IsNested config.limits.maxElementSize [.push [0x05]] := .push (by decide)
  have hsecond : Script.IsNested config.limits.maxElementSize [.ofOpcode .opReturn] :=
    .opcode (by decide) (by decide)
  have hnested : conditional.IsNested config.limits.maxElementSize :=
    .conditional (.inl rfl) hfirst (List.forall_mem_singleton.2 hsecond)
  obtain ⟨hskipped, hexecuted, -⟩ := conditionals_structured config
  constructor
  · rcases hskipped { m with branches := .ofList [false] } conditional [] rfl hnested
      (List.append_nil _).symm (by decide) with ⟨hpassed, -⟩ | ⟨-, hops⟩
    · exact ⟨_, hpassed, rfl⟩
    · exact absurd hops (by decide)
  · refine hexecuted rfl rfl m .opIf _ _ [] [0x01] (.ofList [] 1000) true rfl hfirst hsecond
      (List.append_nil _).symm rfl (by decide) (.inl ⟨rfl, rfl⟩) ?_
    obtain ⟨_, hends⟩ : ∃ last, process config 5 m = .ok () last := ⟨_, rfl⟩
    intro last hfailed
    cases hends.symm.trans hfailed

end CoinScript
