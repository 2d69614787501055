import CoinScript.Proofs.Balance

/-!
# Skipped scripts

A script is well nested if it is made of commands that are allowed everywhere and of conditionals whose
arms are well nested again. Where commands are not executed, the machine goes through such a script as if
it were not there: nested conditionals are opened and closed, none of their arms runs, and only the
operations are counted.
-/

namespace CoinScript

/-! ## Well nested scripts -/

namespace Script

/-- How many commands use up an operation. -/
def counted (script : Script) : Nat := script.countP fun c => (Entry.command c).isCounted

@[simp] theorem counted_nil : counted [] = 0 := rfl

@[simp] theorem counted_append (first second : Script) :
    counted (first ++ second) = counted first + counted second :=
  List.countP_append

/-- A conditional with any number of arms. -/
def conditional (opener : Opcode) (first : Script) (others : List Script) : Script :=
  [.ofOpcode opener] ++ first ++ others.flatMap ([.ofOpcode .opElse] ++ ·) ++ [.ofOpcode .opEndIf]

/-- A script of pushes that are not too large, opcodes that are neither flow control nor forbidden, and
conditionals. -/
inductive IsNested (maxElementSize : Nat) : Script → Prop where
  | nil : IsNested maxElementSize []
  | push {data : Bytes} (hsize : data.length ≤ maxElementSize) : IsNested maxElementSize [.push data]
  | opcode {byte : UInt8} (hstraight : (Command.opcode byte).isStraight)
      (hallowed : Machine.forbidden? byte = none) : IsNested maxElementSize [.opcode byte]
  | append {first second : Script} (hfirst : IsNested maxElementSize first)
      (hsecond : IsNested maxElementSize second) : IsNested maxElementSize (first ++ second)
  | conditional {opener : Opcode} {first : Script} {others : List Script}
      (hopener : opener = .opIf ∨ opener = .opNotIf) (hfirst : IsNested maxElementSize first)
      (hothers : ∀ arm ∈ others, IsNested maxElementSize arm) :
      IsNested maxElementSize (conditional opener first others)

variable {maxElementSize : Nat} {script : Script} {others : List Script}

theorem depth?_others (hothers : ∀ arm ∈ others, ∀ depth, depth? depth arm = some depth) (depth : Nat) :
    depth? (depth + 1) (others.flatMap ([.ofOpcode .opElse] ++ ·)) = some (depth + 1) := by
  induction others with
  | nil => rfl
  | cons arm others ih =>
    obtain ⟨harm, hothers⟩ := List.forall_mem_cons.1 hothers
    have helse : depth? (depth + 1) [.ofOpcode .opElse] = some (depth + 1) := rfl
    simp only [List.flatMap_cons, depth?_append, helse, harm, ih hothers, Option.bind_eq_bind,
      Option.bind_some]

/-- A well nested script opens and closes its own conditionals only. -/
theorem IsNested.depth?_eq (h : IsNested maxElementSize script) (depth : Nat) :
    script.depth? depth = some depth := by
  induction h generalizing depth with
  | nil => rfl
  | push _ => rfl
  | opcode hstraight _ =>
    rw [depth?_cons, Command.nextDepth?_of_isStraight hstraight]
    rfl
  | append _ _ ihfirst ihsecond =>
    rw [depth?_append, ihfirst]
    exact ihsecond depth
  | @conditional opener first others hopener _ _ ihfirst ihothers =>
    have hopened : depth? depth [.ofOpcode opener] = some (depth + 1) := by
      rcases hopener with rfl | rfl <;> rfl
    have hclosed : depth? (depth + 1) [.ofOpcode .opEndIf] = some depth := rfl
    simp only [Script.conditional, depth?_append, hopened, ihfirst, depth?_others ihothers, hclosed,
      Option.bind_eq_bind, Option.bind_some]

end Script

/-- Within an arm that does not run, no arm does. -/
theorem Branches.not_isRunning_cons {branches : Branches} (arm : Bool)
    (h : branches.isRunning = false) : (ofList (arm :: branches.arms)).isRunning = false := by
  rw [isRunning_eq] at h ⊢
  rw [arms_ofList, List.all_cons, h, Bool.and_false]

namespace Machine

variable {config : Config} {script first second : Script} {branches middle after : Branches}

/-! ## Passing through a script -/

/-- The machine past a script of which nothing is executed. -/
def passed (m : Machine) (script : Script) (rest : List Entry) (after : Branches) : Machine :=
  { m with
    frame := { m.frame with opCount := m.frame.opCount + script.counted }
    pending := rest
    branches := after
    events := (script.map fun c => Event.step c m.frame.stack.length).reverse ++ m.events }

/-- A script leads from open conditionals to others, whatever else there is in a machine, and nothing but
its operations is counted, unless these are too many. -/
def Passes (config : Config) (script : Script) (branches after : Branches) : Prop :=
  ∀ (m : Machine) (rest : List Entry), m.branches = branches →
    m.pending = script.map .command ++ rest → m.frame.size ≤ config.limits.maxStackSize →
    process config script.length m = .ok () (m.passed script rest after) ∧
        (script.counted = 0 ∨ m.frame.opCount + script.counted ≤ config.limits.maxOps) ∨
      (∃ last, process config script.length m = .error .opCount last) ∧
        config.limits.maxOps < m.frame.opCount + script.counted

theorem passes_nil : Passes config [] branches branches := by
  rintro m rest rfl hp -
  have hrest : m.pending = rest := hp
  subst hrest
  exact .inl ⟨rfl, .inl rfl⟩

theorem passes_append (hfirst : Passes config first branches middle)
    (hsecond : Passes config second middle after) :
    Passes config (first ++ second) branches after := by
  intro m rest hb hp hsize
  rw [List.map_append, List.append_assoc] at hp
  rw [List.length_append, process_add, Script.counted_append]
  rcases hfirst m _ hb hp hsize with ⟨hfirst, hops⟩ | ⟨⟨last, hfirst⟩, hops⟩
  · rw [hfirst]
    simp only
    rcases hsecond (m.passed first (second.map .command ++ rest) middle) rest rfl rfl hsize with
      ⟨hsecond, hops'⟩ | ⟨⟨last, hsecond⟩, hops'⟩
    · refine .inl ⟨?_, ?_⟩
      · rw [hsecond]
        simp [passed, Nat.add_assoc]
      · simp only [passed] at hops'
        omega
    · refine .inr ⟨⟨last, hsecond⟩, ?_⟩
      simp only [passed] at hops'
      omega
  · rw [hfirst]
    exact .inr ⟨⟨last, rfl⟩, by omega⟩

/-! ## Single commands -/

theorem step_of_runEntry {entry : Entry} {m next : Machine}
    (h : runEntry config entry (m.reported (entryEvent m.frame.stack.length entry)) = .ok () next)
    (hsize : next.frame.size ≤ config.limits.maxStackSize) : step config entry m = .ok () next := by
  have hrest : (do runEntry config entry; checkSize config.limits : Step Unit)
      (m.reported (entryEvent m.frame.stack.length entry)) = .ok () next := by
    simp only [bind, EStateM.bind, h, checkSize, if_neg (Nat.not_lt.2 hsize)]
  exact hrest

theorem step_of_runEntry_error {entry : Entry} {m last : Machine} {e : EvalError}
    (h : runEntry config entry (m.reported (entryEvent m.frame.stack.length entry)) = .error e last) :
    step config entry m = .error e last := by
  have hrest : (do runEntry config entry; checkSize config.limits : Step Unit)
      (m.reported (entryEvent m.frame.stack.length entry)) = .error e last := by
    simp only [bind, EStateM.bind, h]
  exact hrest

/-- An opcode that is not forbidden is counted, if it counts, and then it does what it does. -/
theorem runOpcode_of_dispatch (config : Config) {byte : UInt8} (hallowed : forbidden? byte = none)
    (hdispatch : ∀ m : Machine, m.branches = branches →
      dispatch config byte m = .ok () { m with branches := after })
    {m : Machine} (hb : m.branches = branches) :
    runOpcode config byte m = .ok () { m with
          frame := { m.frame with opCount := m.frame.opCount + Script.counted [.opcode byte] }
          branches := after } ∧
        (Script.counted [.opcode byte] = 0 ∨
          m.frame.opCount + Script.counted [.opcode byte] ≤ config.limits.maxOps) ∨
      (∃ last, runOpcode config byte m = .error .opCount last) ∧
        config.limits.maxOps < m.frame.opCount + Script.counted [.opcode byte] := by
  simp only [runOpcode, hallowed, onlyIf]
  cases hcounted : Opcode.isCounted byte with
  | false =>
    have hnone : Script.counted [.opcode byte] = 0 := by
      simp [Script.counted, Entry.isCounted, hcounted]
    rw [hnone]
    exact .inl ⟨hdispatch m hb, .inl rfl⟩
  | true =>
    have hone : Script.counted [.opcode byte] = 1 := by
      simp [Script.counted, Entry.isCounted, hcounted]
    rw [hone]
    simp only [if_true, bind, EStateM.bind, act, Action.charge]
    by_cases hops : config.limits.maxOps < m.frame.opCount + 1
    · simp only [if_pos hops]
      exact .inr ⟨⟨_, rfl⟩, hops⟩
    · simp only [if_neg hops]
      exact .inl ⟨hdispatch _ hb, .inr (Nat.le_of_not_lt hops)⟩

/-- A command passes if running it does nothing but to count it and to change the open conditionals. -/
theorem passes_opcode {byte : UInt8} (hallowed : forbidden? byte = none)
    (hdispatch : ∀ m : Machine, m.branches = branches →
      dispatch config byte m = .ok () { m with branches := after }) :
    Passes config [.opcode byte] branches after := by
  intro m rest hb hp hsize
  rw [List.length_singleton, process_one hp]
  have hrun := runOpcode_of_dispatch config hallowed hdispatch
    (m := ({ m with pending := rest } : Machine).reported (.step (.opcode byte) m.frame.stack.length)) hb
  rcases hrun with ⟨hrun, hops⟩ | ⟨⟨last, hrun⟩, hops⟩
  · exact .inl ⟨step_of_runEntry hrun hsize, hops⟩
  · exact .inr ⟨⟨last, step_of_runEntry_error hrun⟩, hops⟩

theorem pushData_of_skipped {env : Env} {scripted : Bool} {data : Bytes} {m : Machine}
    (hskipped : m.isExecuting = false) (hdata : data.length ≤ env.limits.maxElementSize) :
    pushData env scripted data m = .ok () m := by
  rw [pushData_eq, if_neg (Nat.not_lt.2 hdata), hskipped]
  rfl

theorem passes_push {data : Bytes} (hskipped : branches.isRunning = false)
    (hdata : data.length ≤ config.limits.maxElementSize) :
    Passes config [.push data] branches branches := by
  rintro m rest rfl hp hsize
  rw [List.length_singleton, process_one hp]
  exact .inl ⟨step_of_runEntry (pushData_of_skipped hskipped hdata) hsize, .inl rfl⟩

theorem passes_straight {byte : UInt8} (hstraight : (Command.opcode byte).isStraight)
    (hallowed : forbidden? byte = none) (hskipped : branches.isRunning = false) :
    Passes config [.opcode byte] branches branches := by
  refine passes_opcode hallowed ?_
  rintro m rfl
  have hexec : m.isExecuting = false := hskipped
  rw [dispatch_of_isStraight hstraight, execute_eq, hexec]
  rfl

theorem passes_opener {opener : Opcode} (hopener : opener = .opIf ∨ opener = .opNotIf)
    (hskipped : branches.isRunning = false) :
    Passes config [.ofOpcode opener] branches (branches.enter false) := by
  have hopen (expected : Bool) (m : Machine) (hb : m.branches = branches) :
      openBranch expected m = .ok () { m with branches := branches.enter false } := by
    have hexec : m.isExecuting = false := by rw [isExecuting, hb, hskipped]
    rw [openBranch, hexec, hb]
    rfl
  rcases hopener with rfl | rfl
  · exact passes_opcode (by decide) (hopen true)
  · exact passes_opcode (by decide) (hopen false)

theorem passes_else (h : branches.flip? = some after) :
    Passes config [.ofOpcode .opElse] branches after := by
  refine passes_opcode (by decide) ?_
  rintro m rfl
  simp only [dispatch, Opcode.ofByte?_byte, flipBranch, h]

theorem passes_endIf (h : branches.leave? = some after) :
    Passes config [.ofOpcode .opEndIf] branches after := by
  refine passes_opcode (by decide) ?_
  rintro m rfl
  simp only [dispatch, Opcode.ofByte?_byte, closeBranch, h]

/-! ## Well nested scripts pass -/

/-- The arms behind the first one, each of which goes to the other arm in front. -/
theorem passes_others {others : List Script} (hskipped : branches.isRunning = false)
    (hothers : ∀ arm ∈ others, ∀ branches : Branches, branches.isRunning = false →
      Passes config arm branches branches) (arm : Bool) :
    ∃ last, Passes config (others.flatMap ([.ofOpcode .opElse] ++ ·))
      (.ofList (arm :: branches.arms)) (.ofList (last :: branches.arms)) := by
  -- Whether an arm would run changes from arm to arm, but the conditional is within one that does not.
  induction others generalizing arm with
  | nil => exact ⟨arm, passes_nil⟩
  | cons other others ih =>
    obtain ⟨hfirst, hothers⟩ := List.forall_mem_cons.1 hothers
    obtain ⟨last, hlast⟩ := ih hothers (!arm)
    have hother := hfirst (.ofList ((!arm) :: branches.arms)) (Branches.not_isRunning_cons _ hskipped)
    rw [List.flatMap_cons]
    have helse : Passes config [.ofOpcode .opElse] (.ofList (arm :: branches.arms))
        (.ofList ((!arm) :: branches.arms)) :=
      passes_else (Branches.flip?_ofList_cons _ _)
    exact ⟨last, passes_append (passes_append helse hother) hlast⟩

/-- Where commands are not executed, a well nested script leaves the open conditionals as they are. -/
theorem passes_of_isNested (h : script.IsNested config.limits.maxElementSize)
    (hskipped : branches.isRunning = false) : Passes config script branches branches := by
  induction h generalizing branches with
  | nil => exact passes_nil
  | push hdata => exact passes_push hskipped hdata
  | opcode hstraight hallowed => exact passes_straight hstraight hallowed hskipped
  | append _ _ ihfirst ihsecond => exact passes_append (ihfirst hskipped) (ihsecond hskipped)
  | @conditional opener _ _ hopener _ _ ihfirst ihothers =>
    have hopened : Passes config [.ofOpcode opener] branches (branches.enter false) :=
      passes_opener hopener hskipped
    rw [Branches.enter_eq] at hopened
    have hinner := ihfirst (Branches.not_isRunning_cons false hskipped)
    obtain ⟨last, hlast⟩ :=
      passes_others hskipped (fun arm harm branches => ihothers arm harm) false
    have hclosed : Passes config [.ofOpcode .opEndIf] (.ofList (last :: branches.arms)) branches := by
      refine passes_endIf ?_
      rw [Branches.leave?_ofList_cons, Branches.ofList_arms]
    exact passes_append (passes_append (passes_append hopened hinner) hlast) hclosed

end Machine

end CoinScript
