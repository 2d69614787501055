import CoinScript.Proofs.Simulation
import CoinScript.Proofs.Verdict

/-!
# Machines that run alike

A run depends neither on the pool of buffers nor on what has been reported or asked before. Nor does it
matter whether an element at the front of the program is part of a witness or pushed by a script, if
the push is allowed. So machines that differ in no more than this run alike, and also if the flags of
one demand less than those of the other.

The verdict of a machine is what its run is reported as. Main results: machines that are alike have the
same verdict, and a success stays one under flags that demand less.
-/

namespace CoinScript

/-- The same entries, except that elements of a witness at the front can stand for pushes of them,
which are allowed under the flags. -/
def Entry.Alike (flags : Flags) (entries entries' : List Entry) : Prop :=
  ∃ (elements : List Bytes) (rest : List Entry),
    (flags.minimalData → ∀ data ∈ elements, Element.needsPush data) ∧
    entries = elements.map .witness ++ rest ∧
    entries' = elements.map (fun data => .command (.push data)) ++ rest

theorem Entry.alike_of_eq {flags : Flags} {entries entries' : List Entry} (h : entries = entries') :
    Entry.Alike flags entries entries' :=
  ⟨[], entries, by simp, by simp, by simp [h]⟩

/-- The first entries of programs that are alike are the same, or the second is a push of the first. -/
theorem Entry.alike_cons {flags : Flags} {entry : Entry} {rest entries : List Entry}
    (h : Entry.Alike flags (entry :: rest) entries) :
    ∃ entry' rest', entries = entry' :: rest' ∧ Entry.Alike flags rest rest' ∧
      (entry' = entry ∨ ∃ data, (flags.minimalData → Element.needsPush data) ∧
        entry = .witness data ∧ entry' = .command (.push data)) := by
  obtain ⟨elements, tail, hmin, hleft, hright⟩ := h
  cases elements with
  | nil =>
    simp only [List.map_nil, List.nil_append] at hleft hright
    subst hleft
    exact ⟨entry, rest, hright, Entry.alike_of_eq rfl, .inl rfl⟩
  | cons data elements =>
    simp only [List.map_cons, List.cons_append, List.cons.injEq] at hleft
    obtain ⟨rfl, rfl⟩ := hleft
    refine ⟨_, _, hright, ⟨elements, tail, ?_, rfl, rfl⟩, .inr ⟨data, ?_, rfl, rfl⟩⟩
    · exact fun hflag other hother => hmin hflag other (List.mem_cons_of_mem _ hother)
    · exact fun hflag => hmin hflag data List.mem_cons_self

/-- Under the flags a run demands no more than under the `stronger` ones, and the rules that change the
program are the same. -/
structure Flags.Loosens (strict : Prop) (flags stronger : Flags) : Prop
    extends flags.Relaxes strict stronger where
  p2sh_eq : flags.p2sh = stronger.p2sh
  witness_eq : flags.witness = stronger.witness

theorem Flags.Loosens.refl {strict : Prop} (flags : Flags) : flags.Loosens strict flags :=
  ⟨.refl flags, rfl, rfl⟩

namespace Machine

variable {α : Type} {strict : Prop} {E : List Entry → List Entry → Prop}
  {env : Env} {flags : Flags} {limits : Limits}

/-- Machines that differ at most in pool, events and questions, and whose programs are related. -/
structure Alike (E : List Entry → List Entry → Prop) (m n : Machine) : Prop where
  frame : m.frame.Alike n.frame
  pending : E m.pending n.pending
  branches_eq : n.branches = m.branches
  witness_eq : n.witness = m.witness

theorem Alike.isExecuting_eq {m n : Machine} (h : Alike E m n) : n.isExecuting = m.isExecuting := by
  rw [isExecuting, h.branches_eq, isExecuting]

/-! ## Parts of a step -/

theorem simulated_act {x y : Action α} (h : Action.SimulatedBy strict x y) :
    Simulated strict (Alike E) (Alike E) (act x) (act y) := by
  intro m n hmn
  have hxy := h m.frame n.frame hmn.frame
  unfold act
  cases hx : x m.frame with
  | ok a frame =>
    rw [hx] at hxy
    obtain ⟨frame', hy, hframe⟩ := hxy
    rw [hy]
    exact ⟨_, rfl, hframe, hmn.pending, hmn.branches_eq, hmn.witness_eq⟩
  | error e frame =>
    rw [hx] at hxy
    intro hs
    obtain ⟨frame', hy⟩ := hxy hs
    rw [hy]
    exact ⟨_, rfl⟩

theorem simulated_onlyIf (condition : Bool) {x y : Step Unit}
    (h : Simulated strict (Alike E) (Alike E) x y) :
    Simulated strict (Alike E) (Alike E) (onlyIf condition x) (onlyIf condition y) :=
  simulated_ite h (simulated_pure _)

theorem simulated_report (event event' : Event) :
    Simulated strict (Alike E) (Alike E) (report event) (report event') := by
  intro m n hmn
  exact ⟨_, rfl, hmn.frame, hmn.pending, hmn.branches_eq, hmn.witness_eq⟩

theorem simulated_takeWitness :
    Simulated strict (Alike E) (Alike E) takeWitness takeWitness := by
  intro m n hmn
  refine ⟨{ n with witness := [] }, ?_, hmn.frame, hmn.pending, hmn.branches_eq, rfl⟩
  rw [takeWitness, hmn.witness_eq]

theorem simulated_parseInjected (body : Bytes) :
    Simulated strict (Alike E) (Alike E) (parseInjected body) (parseInjected body) := by
  intro m n hmn
  obtain ⟨pool, hm⟩ := parseInjected_eq body m
  obtain ⟨pool', hn⟩ := parseInjected_eq body n
  rw [hm, hn]
  cases Script.parseRaw body with
  | ok script => exact ⟨_, rfl, hmn.frame, hmn.pending, hmn.branches_eq, hmn.witness_eq⟩
  | error e => exact fun _ => ⟨_, rfl⟩

theorem simulated_runNext (entries : List Entry) :
    Simulated strict (Alike Eq) (Alike Eq) (runNext limits entries) (runNext limits entries) := by
  intro m n hmn
  unfold runNext
  rw [← hmn.pending]
  split
  · exact fun _ => ⟨_, rfl⟩
  · exact ⟨_, rfl, hmn.frame, rfl, hmn.branches_eq, hmn.witness_eq⟩

theorem simulated_runLast (entries : List Entry) :
    Simulated strict (Alike (Entry.Alike flags)) (Alike (Entry.Alike flags))
      (runLast limits entries) (runLast limits entries) := by
  intro m n hmn
  obtain ⟨elements, rest, hmin, hm, hn⟩ := hmn.pending
  have hlength : n.pending.length = m.pending.length := by simp [hm, hn]
  unfold runLast
  rw [hlength]
  split
  · exact fun _ => ⟨_, rfl⟩
  · refine ⟨_, rfl, hmn.frame, ⟨elements, rest ++ entries, hmin, ?_, ?_⟩, hmn.branches_eq,
      hmn.witness_eq⟩
    · simp [hm]
    · simp [hn]

/-! ## Rules that change the program -/

theorem simulated_redeem (hash : Digest 20) :
    Simulated strict (Alike E) (Alike Eq) (redeem limits hash) (redeem limits hash) := by
  have hclear : Simulated strict (Alike E) (Alike Eq)
      (modify fun m => { m with pending := [] } : Step Unit)
      (modify fun m => { m with pending := [] }) := by
    intro m n hmn
    exact ⟨_, rfl, hmn.frame, rfl, hmn.branches_eq, hmn.witness_eq⟩
  refine simulated_bind hclear fun _ => ?_
  refine simulated_bind (simulated_act (Action.simulated_take _)) fun body => ?_
  refine simulated_ite ?_ (simulated_throw _)
  refine simulated_bind (simulated_parseInjected body) fun script => ?_
  refine simulated_bind (simulated_report _ _) fun _ => ?_
  exact simulated_runNext _

/-- An element of a witness is no part of a comparison with a hash, and neither is a push in its
place. -/
theorem pendingHash?_eq_of_alike {m n : Machine} (h : Entry.Alike flags m.pending n.pending) :
    n.pendingHash? = m.pendingHash? := by
  obtain ⟨elements, rest, -, hm, hn⟩ := h
  cases elements with
  | nil => simp only [pendingHash?, hm, hn, List.map_nil]
  | cons data elements =>
    have hleft : m.pendingHash? = none := by simp [pendingHash?, hm]
    have hright : n.pendingHash? = none := by
      simp only [pendingHash?, hn, List.map_cons, List.cons_append]
      split
      · rename_i hp
        simp only [List.cons.injEq, Entry.command.injEq] at hp
        rw [← hp.1]
        rfl
      · rfl
    rw [hleft, hright]

theorem simulated_redeemPending :
    Simulated strict (Alike (Entry.Alike flags)) (Alike (Entry.Alike flags))
      (redeemPending limits) (redeemPending limits) := by
  intro m n hmn
  rw [redeemPending_eq, redeemPending_eq, pendingHash?_eq_of_alike hmn.pending]
  cases m.pendingHash? with
  | none => exact ⟨n, rfl, hmn⟩
  | some hash =>
    refine answers_mono (fun s t hst => ?_) (simulated_redeem hash m n hmn)
    exact ⟨hst.frame, Entry.alike_of_eq hst.pending, hst.branches_eq, hst.witness_eq⟩

theorem simulated_expandKey (hash : Digest 20) :
    Simulated strict (Alike (Entry.Alike flags)) (Alike (Entry.Alike flags))
      (expandKey limits hash) (expandKey limits hash) := by
  refine simulated_bind simulated_takeWitness fun witness => ?_
  refine simulated_bind (simulated_report _ _) fun _ => ?_
  exact simulated_runLast _

theorem simulated_expandScript (hash : Digest 32) :
    Simulated strict (Alike (Entry.Alike flags)) (Alike (Entry.Alike flags))
      (expandScript limits hash) (expandScript limits hash) := by
  refine simulated_bind simulated_takeWitness fun witness => ?_
  cases witness.getLast? with
  | none => exact simulated_throw _
  | some body =>
    refine simulated_ite ?_ (simulated_throw _)
    refine simulated_bind (simulated_parseInjected body) fun script => ?_
    refine simulated_bind (simulated_report _ _) fun _ => ?_
    exact simulated_runLast _

theorem simulated_expandWitness :
    Simulated strict (Alike (Entry.Alike flags)) (Alike (Entry.Alike flags))
      (expandWitness limits) (expandWitness limits) := by
  intro m n hmn
  rw [expandWitness_eq, expandWitness_eq, hmn.frame.stack_eq]
  cases witnessProgram? m.frame.stack with
  | none => exact ⟨n, rfl, hmn⟩
  | some program =>
    refine simulated_bind (simulated_act Action.simulated_drop) (fun _ => ?_) m n hmn
    refine simulated_bind (simulated_act Action.simulated_drop) fun _ => ?_
    cases program with
    | pubKeyHash hash => exact simulated_expandKey hash
    | scriptHash hash => exact simulated_expandScript hash

/-! ## Steps -/

/-- Pushes are simulated if the first of them fails on data that needs no push whenever the second
does. -/
theorem simulated_pushData {scripted scripted' : Bool} {data : Bytes}
    (h : flags.Loosens strict env.flags)
    (hmin : (scripted' && flags.minimalData && !Element.needsPush data) = true →
      (scripted && env.flags.minimalData && !Element.needsPush data) = true)
    (hstrict : strict → (scripted && env.flags.minimalData && !Element.needsPush data) = true →
      (scripted' && flags.minimalData && !Element.needsPush data) = true) :
    Simulated strict (Alike (Entry.Alike flags)) (Alike (Entry.Alike flags))
      (pushData env scripted data) (pushData { env with flags } scripted' data) := by
  have hrules : Simulated strict (Alike (Entry.Alike flags)) (Alike (Entry.Alike flags))
      (do
        act (Action.push data)
        onlyIf env.flags.p2sh (redeemPending env.limits)
        onlyIf env.flags.witness (expandWitness env.limits))
      (do
        act (Action.push data)
        onlyIf flags.p2sh (redeemPending env.limits)
        onlyIf flags.witness (expandWitness env.limits)) := by
    rw [h.p2sh_eq, h.witness_eq]
    refine simulated_bind (simulated_act (Action.simulated_alter _)) fun _ => ?_
    refine simulated_bind (simulated_onlyIf _ simulated_redeemPending) fun _ => ?_
    exact simulated_onlyIf _ simulated_expandWitness
  intro m n hmn
  rw [pushData_eq, pushData_eq, hmn.isExecuting_eq]
  split
  · exact fun _ => ⟨n, rfl⟩
  · split
    · exact ⟨n, rfl, hmn⟩
    · exact simulated_guard .minimalData hmin hstrict hrules m n hmn

theorem simulated_openBranch (expected : Bool) :
    Simulated strict (Alike E) (Alike E) (openBranch expected) (openBranch expected) := by
  intro m n hmn
  unfold openBranch
  rw [hmn.isExecuting_eq, hmn.frame.stack_eq, hmn.branches_eq]
  obtain ⟨asked, hframe⟩ := hmn.frame
  split
  · cases m.frame.stack.pop with
    | error e => exact fun _ => ⟨_, rfl⟩
    | ok popped => exact ⟨_, rfl, ⟨asked, by rw [hframe]⟩, hmn.pending, rfl, hmn.witness_eq⟩
  · exact ⟨_, rfl, hmn.frame, hmn.pending, rfl, hmn.witness_eq⟩

theorem simulated_flipBranch : Simulated strict (Alike E) (Alike E) flipBranch flipBranch := by
  intro m n hmn
  unfold flipBranch
  rw [hmn.branches_eq]
  cases m.branches.flip? with
  | none => exact fun _ => ⟨_, rfl⟩
  | some branches => exact ⟨_, rfl, hmn.frame, hmn.pending, rfl, hmn.witness_eq⟩

theorem simulated_closeBranch : Simulated strict (Alike E) (Alike E) closeBranch closeBranch := by
  intro m n hmn
  unfold closeBranch
  rw [hmn.branches_eq]
  cases m.branches.leave? with
  | none => exact fun _ => ⟨_, rfl⟩
  | some branches => exact ⟨_, rfl, hmn.frame, hmn.pending, rfl, hmn.witness_eq⟩

section Steps

variable {config : Config}

theorem simulated_execute (h : flags.Relaxes strict config.flags) (byte : UInt8) :
    Simulated strict (Alike E) (Alike E) (execute config byte)
      (execute { config with flags } byte) := by
  intro m n hmn
  rw [execute_eq, execute_eq, hmn.isExecuting_eq]
  split
  · simp only
    cases config.table.handler? byte with
    | none => exact fun _ => ⟨_, rfl⟩
    | some handler => exact simulated_act (Handler.simulated_run h byte handler) m n hmn
  · exact ⟨n, rfl, hmn⟩

theorem simulated_dispatch (h : flags.Relaxes strict config.flags) (byte : UInt8) :
    Simulated strict (Alike E) (Alike E) (dispatch config byte)
      (dispatch { config with flags } byte) := by
  unfold dispatch
  split
  · exact simulated_openBranch true
  · exact simulated_openBranch false
  · exact simulated_flipBranch
  · exact simulated_closeBranch
  · exact simulated_execute h byte

theorem simulated_runOpcode (h : flags.Relaxes strict config.flags) (byte : UInt8) :
    Simulated strict (Alike E) (Alike E) (runOpcode config byte)
      (runOpcode { config with flags } byte) := by
  unfold runOpcode
  cases forbidden? byte with
  | some e => exact simulated_throw e
  | none =>
    refine simulated_bind (simulated_onlyIf _ ?_) fun _ => simulated_dispatch h byte
    exact simulated_act (Action.simulated_charge _ _)

theorem simulated_announce (entry entry' : Entry) :
    Simulated strict (Alike E) (Alike E) (announce entry) (announce entry') := by
  intro m n hmn
  exact simulated_report _ _ m n hmn

theorem simulated_checkSize :
    Simulated strict (Alike E) (Alike E) (checkSize limits) (checkSize limits) := by
  intro m n hmn
  unfold checkSize
  rw [hmn.frame.size_eq]
  split
  · exact fun _ => ⟨_, rfl⟩
  · exact ⟨n, rfl, hmn⟩

/-- The same entry is run, or an element of the witness is pushed. -/
theorem simulated_runEntry (h : flags.Loosens strict config.flags) (entry : Entry) :
    Simulated strict (Alike (Entry.Alike flags)) (Alike (Entry.Alike flags))
      (runEntry config entry) (runEntry { config with flags } entry) := by
  cases entry with
  | witness data => exact simulated_pushData h (by simp) (by simp)
  | command command =>
    cases command with
    | opcode byte => exact simulated_runOpcode h.toRelaxes byte
    | push data =>
      refine simulated_pushData h ?_ fun hs => ?_
      · simp only [Bool.true_and, Bool.and_eq_true]
        exact And.imp_left h.minimalData
      · rw [h.eq_of_strict hs]
        exact id

theorem simulated_runEntry_witness (h : flags.Loosens strict config.flags) {data : Bytes}
    (hmin : flags.minimalData → Element.needsPush data) :
    Simulated strict (Alike (Entry.Alike flags)) (Alike (Entry.Alike flags))
      (runEntry config (.witness data)) (runEntry { config with flags } (.command (.push data))) := by
  refine simulated_pushData h ?_ (by simp)
  simp only [Bool.true_and, Bool.and_eq_true, Bool.not_eq_true']
  rintro ⟨hflag, hneeds⟩
  rw [hmin hflag] at hneeds
  cases hneeds

theorem simulated_step {entry entry' : Entry}
    (h : Simulated strict (Alike E) (Alike E) (runEntry config entry)
      (runEntry { config with flags } entry')) :
    Simulated strict (Alike E) (Alike E) (step config entry) (step { config with flags } entry') := by
  refine simulated_bind (simulated_announce entry entry') fun _ => ?_
  exact simulated_bind h fun _ => simulated_checkSize

theorem simulated_finish : Simulated strict (Alike E) (Alike E) finish finish := by
  intro m n hmn
  unfold finish
  rw [hmn.branches_eq, hmn.frame.stack_eq]
  split
  · exact fun _ => ⟨_, rfl⟩
  · cases m.frame.stack.peek with
    | error e => exact fun _ => ⟨_, rfl⟩
    | ok top =>
      simp only
      split
      · exact ⟨n, rfl, hmn⟩
      · exact fun _ => ⟨_, rfl⟩

end Steps

/-! ## Runs -/

/-- The first entry of a program is simulated by the first entry of a program that is alike. -/
theorem answers_step {config : Config} (h : flags.Loosens strict config.flags) {m n : Machine}
    {entry : Entry} {rest : List Entry} (hp : m.pending = entry :: rest)
    (hmn : Alike (Entry.Alike flags) m n) :
    ∃ entry' rest', n.pending = entry' :: rest' ∧
      Answers strict (Alike (Entry.Alike flags)) (step config entry { m with pending := rest })
        (step { config with flags } entry' { n with pending := rest' }) := by
  have hpending := hmn.pending
  rw [hp] at hpending
  obtain ⟨entry', rest', hp', hrest, hentry⟩ := Entry.alike_cons hpending
  have hrun : Simulated strict (Alike (Entry.Alike flags)) (Alike (Entry.Alike flags))
      (runEntry config entry) (runEntry { config with flags } entry') := by
    rcases hentry with rfl | ⟨data, hmin, rfl, rfl⟩
    · exact simulated_runEntry h _
    · exact simulated_runEntry_witness h hmin
  refine ⟨entry', rest', hp', simulated_step hrun _ _ ?_⟩
  exact ⟨hmn.frame, hrest, hmn.branches_eq, hmn.witness_eq⟩

/-- A run is simulated by the run of a machine that is alike, under flags that demand no more. -/
theorem answers_run {config : Config} (h : flags.Loosens strict config.flags) (m : Machine) :
    ∀ n, Alike (Entry.Alike flags) m n →
      Answers strict (Alike (Entry.Alike flags)) (m.run config) (n.run { config with flags }) := by
  induction m using Machine.run.induct config with
  | case1 m hnil =>
    intro n hmn
    obtain ⟨elements, rest, -, hm, hn⟩ := hmn.pending
    have hnil' : n.pending = [] := by simp_all
    rw [run_of_nil hnil, run_of_nil hnil']
    exact simulated_finish m n hmn
  | case2 m entry rest hp e m' hstep =>
    intro n hmn
    obtain ⟨entry', rest', hp', hanswers⟩ := answers_step h hp hmn
    rw [hstep] at hanswers
    rw [run_of_cons hp, hstep, run_of_cons hp']
    intro hs
    obtain ⟨n', hstep'⟩ := hanswers hs
    rw [hstep']
    exact ⟨n', rfl⟩
  | case3 m entry rest hp u m' hstep ih =>
    intro n hmn
    obtain ⟨entry', rest', hp', hanswers⟩ := answers_step h hp hmn
    rw [hstep] at hanswers
    obtain ⟨n', hstep', hmn'⟩ := hanswers
    rw [run_of_cons hp, hstep, run_of_cons hp', hstep']
    exact ih n' hmn'

/-- Machines that are alike have the same verdict. -/
theorem verdict_eq_of_alike {config : Config} {m n : Machine}
    (h : Alike (Entry.Alike config.flags) m n) : m.verdict config = n.verdict config := by
  have hrun : Answers True (Alike (Entry.Alike config.flags)) (m.run config) (n.run config) :=
    answers_run (.refl config.flags) m n h
  unfold verdict
  cases hm : m.run config with
  | ok u m' =>
    rw [hm] at hrun
    obtain ⟨n', hn, -⟩ := hrun
    rw [hn]
  | error e m' =>
    rw [hm] at hrun
    obtain ⟨n', hn⟩ := hrun trivial
    rw [hn]

/-- A machine that succeeds still does so under flags that demand no more. -/
theorem verdict_ok_of_loosens {config : Config} {m : Machine}
    (h : flags.Loosens strict config.flags) (hok : m.verdict config = .ok ()) :
    m.verdict { config with flags } = .ok () := by
  obtain ⟨m', hm⟩ := verdict_eq_ok_iff.1 hok
  have hrun := answers_run h m m ⟨.refl _, Entry.alike_of_eq rfl, rfl, rfl⟩
  rw [hm] at hrun
  obtain ⟨n', hn, -⟩ := hrun
  exact verdict_eq_ok_iff.2 ⟨n', hn⟩

end Machine

end CoinScript
