import CoinScript.Proofs.Commands
import CoinScript.Proofs.Steps

/-!
# What unlocking scripts leave

An unlocking script runs before the locking script and on the same machine. It can push a witness
program, which is then expanded behind the locking script, but it can neither skip a command nor have a
script redeemed as long as the locking script is still to come. So after as many steps as it has
commands the locking script is next. The main result says this of every run that succeeds, and what can
be behind the locking script by then.
-/

namespace CoinScript

/-- The program that an event says has been expanded. -/
def Event.expanded? : Event → Option WitnessProgram
  | .expandedKey hash _ => some (.pubKeyHash hash)
  | .expandedScript hash _ _ => some (.scriptHash hash)
  | _ => none

/-- The events say that a witness program was expanded which the script pushes. -/
def Script.ExpandedIn (script : Script) (events : List Event) : Prop :=
  ∃ data program, .push data ∈ script ∧ WitnessProgram.ofBytes? data = some program ∧
    ∃ event ∈ events, event.expanded? = some program

theorem Script.ExpandedIn.mono {script script' : Script} {events events' : List Event}
    (h : script.ExpandedIn events) (hscript : script ⊆ script') (hevents : events ⊆ events') :
    script'.ExpandedIn events' := by
  obtain ⟨data, program, hmem, hdata, event, hevent, hexpanded⟩ := h
  exact ⟨data, program, hscript hmem, hdata, event, hevents hevent, hexpanded⟩

/-- The witness program that an entry pushes. -/
def Entry.program? : Entry → Option WitnessProgram
  | .command (.push data) => WitnessProgram.ofBytes? data
  | .command (.opcode _) => none
  | .witness data => WitnessProgram.ofBytes? data

/-- What is pending is no comparison with a hash as long as the whole locking script is part of it. -/
def Script.Blocks (lock : Script) : Prop :=
  ∀ (front back : List Entry) (hash : Digest 20),
    front ++ (lock.map .command ++ back) ≠ (Script.p2sh hash).map .command

/-- A locking script that is longer than the comparison is no part of it. -/
theorem Script.blocks_of_length {lock : Script} (h : 3 < lock.length) : lock.Blocks := by
  intro front back hash heq
  have hlength := congrArg List.length heq
  simp only [List.length_append, List.length_map, Script.p2sh, List.length_cons,
    List.length_nil] at hlength
  omega

/-- A locking script with another command in it is no part of the comparison either. -/
theorem Script.blocks_of_mem {lock : Script} {command : Command} (hmem : command ∈ lock)
    (hother : ∀ hash, command ∉ Script.p2sh hash) : lock.Blocks := by
  intro front back hash heq
  have hpending : Entry.command command ∈ (Script.p2sh hash).map Entry.command := by
    rw [← heq]
    simp [hmem]
  obtain ⟨found, hfound, hsame⟩ := List.mem_map.1 hpending
  cases hsame
  exact hother hash hfound

namespace Machine

variable {config : Config} {m m' : Machine} {entry : Entry}

/-! ## Single steps -/

/-- What a step does to the entries that are pending behind its own and to the witness, if no script is
redeemed: nothing, or it expands the witness program that its entry pushes. -/
inductive Spliced (flags : Flags) (entry : Entry) (pending : List Entry) (witness : List Bytes)
    (m : Machine) : Prop where
  | same (hpending : m.pending = pending) (hwitness : m.witness = witness)
  | key {hash : Digest 20} (hflag : flags.witness)
      (hprogram : entry.program? = some (.pubKeyHash hash))
      (hevent : .expandedKey hash witness ∈ m.events)
      (hpending : m.pending = pending ++ (witness.map .witness ++ (Script.p2pkh hash).map .command))
      (hwitness : m.witness = [])
  | script {hash : Digest 32} {elements : List Bytes} {body : Bytes} {script : Script}
      (hflag : flags.witness) (hprogram : entry.program? = some (.scriptHash hash))
      (hevent : .expandedScript hash elements script ∈ m.events)
      (htaken : witness = elements ++ [body]) (hhash : sha256 body = hash)
      (hpending : m.pending = pending ++ (elements.map .witness ++ script.map .command))
      (hwitness : m.witness = [])

theorem spliced_of_pushData {env : Env} {scripted : Bool} {data : Bytes}
    (hentry : entry.program? = WitnessProgram.ofBytes? data) (hhash : m.pendingHash? = none)
    (h : pushData env scripted data m = .ok () m') :
    Spliced env.flags entry m.pending m.witness m' := by
  cases hexec : m.isExecuting with
  | false =>
    obtain ⟨-, ⟨-, rfl⟩ | ⟨hexec', -⟩⟩ := pushData_ok h
    · exact .same rfl rfl
    · rw [hexec] at hexec'
      cases hexec'
  | true =>
    rcases expanded_of_pushData h hexec fun _ => hhash with ⟨hflag, hexpanded⟩ | ⟨-, rfl⟩
    · cases hexpanded with
      | nothing => exact .same rfl rfl
      | key hprogram =>
        have hdata := hentry.trans (ofBytes?_of_pushed hprogram)
        exact .key hflag hdata List.mem_cons_self rfl rfl
      | script hprogram htaken hsha =>
        have hdata := hentry.trans (ofBytes?_of_pushed hprogram)
        exact .script hflag hdata List.mem_cons_self htaken hsha rfl rfl
    · exact .same rfl rfl

/-- In front of anything but the comparison with a hash, a step does no more to the program than to
expand a witness program. -/
theorem spliced_of_step (hhash : m.pendingHash? = none) (h : step config entry m = .ok () m') :
    Spliced config.flags entry m.pending m.witness m' := by
  obtain ⟨hrun, -⟩ := step_ok h
  match entry with
  | .command (.push data) => exact spliced_of_pushData (m := m.reported _) rfl hhash hrun
  | .command (.opcode byte) =>
    obtain ⟨hpending, hwitness, -⟩ := runOpcode_spends hrun
    exact .same hpending hwitness
  | .witness data => exact spliced_of_pushData (m := m.reported _) rfl hhash hrun

/-- What a step has put behind, if it is a command: a witness program that it pushes was expanded. -/
theorem Spliced.appended {flags : Flags} {command : Command} {pending : List Entry}
    {witness : List Bytes} (h : Spliced flags (.command command) pending witness m) :
    (m.pending = pending ∧ m.witness = witness) ∨
      (∃ entries, m.pending = pending ++ entries) ∧ flags.witness ∧ m.witness = [] ∧
        Script.ExpandedIn [command] m.events := by
  have hpushes : ∀ program, (Entry.command command).program? = some program →
      ∃ data, command = .push data ∧ WitnessProgram.ofBytes? data = some program := by
    intro program hprogram
    cases command with
    | push data => exact ⟨data, rfl, hprogram⟩
    | opcode byte => cases hprogram
  cases h with
  | same hpending hwitness => exact .inl ⟨hpending, hwitness⟩
  | key hflag hprogram hevent hpending hwitness =>
    obtain ⟨data, rfl, hdata⟩ := hpushes _ hprogram
    refine .inr ⟨⟨_, hpending⟩, hflag, hwitness, ?_⟩
    exact ⟨data, _, List.mem_cons_self, hdata, _, hevent, rfl⟩
  | script hflag hprogram hevent htaken hhash hpending hwitness =>
    obtain ⟨data, rfl, hdata⟩ := hpushes _ hprogram
    refine .inr ⟨⟨_, hpending⟩, hflag, hwitness, ?_⟩
    exact ⟨data, _, List.mem_cons_self, hdata, _, hevent, rfl⟩

/-! ## Whole scripts -/

/-- As long as the locking script is still to come, each command of the unlocking script takes one step.
What is behind the locking script when it is next has been put there by a witness program that the
unlocking script pushes. -/
theorem after?_of_run {script lock : Script} {back : List Entry} (hlock : lock.Blocks)
    (hp : m.pending = script.map .command ++ (lock.map .command ++ back))
    (h : m.run config = .ok () m') :
    ∃ next behind, after? config script.length m = some next ∧ next.run config = .ok () m' ∧
      next.pending = lock.map .command ++ behind ∧
      (behind = back ∧ next.witness = m.witness ∨
        config.flags.witness ∧ next.witness = [] ∧ script.ExpandedIn next.events) := by
  -- What is behind the locking script may grow on the way, so the induction is for any `back`.
  induction script generalizing m back with
  | nil => exact ⟨m, back, rfl, h, hp, .inl ⟨rfl, rfl⟩⟩
  | cons command script ih =>
    obtain ⟨first, hstep, h⟩ := run_cons_ok hp h
    have hhash : pendingHash?
        { m with pending := script.map .command ++ (lock.map .command ++ back) } = none :=
      pendingHash?_eq_none (hlock _ _)
    rcases (spliced_of_step hhash hstep).appended with
      ⟨hpending, hwitness⟩ | ⟨⟨entries, hpending⟩, hflag, hwitness, hexpanded⟩
    · obtain ⟨next, behind, hafter, hrun, hnext, hcases⟩ := ih hpending h
      refine ⟨next, behind, ?_, hrun, hnext, ?_⟩
      · rw [List.length_cons, after?_succ hp hstep]
        exact hafter
      · rcases hcases with ⟨hbehind, hsame⟩ | ⟨hflag, htaken, hexpanded⟩
        · exact .inl ⟨hbehind, hsame.trans hwitness⟩
        · have hmore := hexpanded.mono (List.subset_cons_self command _) (List.Subset.refl _)
          exact .inr ⟨hflag, htaken, hmore⟩
    · have hbehind : first.pending =
          script.map .command ++ (lock.map .command ++ (back ++ entries)) := by
        simpa using hpending
      obtain ⟨next, behind, hafter, hrun, hnext, hcases⟩ := ih hbehind h
      refine ⟨next, behind, ?_, hrun, hnext, .inr ⟨hflag, ?_, ?_⟩⟩
      · rw [List.length_cons, after?_succ hp hstep]
        exact hafter
      · rcases hcases with ⟨-, hsame⟩ | ⟨-, htaken, -⟩
        · rw [hsame, hwitness]
        · exact htaken
      · exact hexpanded.mono (by simp) (after?_events hafter)

end Machine

end CoinScript
