import CoinScript.Proofs.Plain
import CoinScript.Proofs.ShortestWords

/-!
# Minimal pushes

The rule that pushes are minimal is about elements: data is pushed only if there is no opcode for it. How
the length of the data was written is not known any more when a script runs. The main result says what
can be concluded about the body that a script was read from, if the script runs to a success under that
rule: writing the script gives a body that is no longer, and the same body exactly if it spelled each
push as shortly as it could.
-/

namespace CoinScript

namespace Plain

variable {config : Config} {s t : Plain}

/-- A push that is executed is small enough and, if pushes have to be minimal, there is no opcode for
it. -/
theorem needsPush_of_push {env : Env} {data : Bytes} (hexec : s.isExecuting)
    (h : s.push env data = .ok t) :
    data.length ≤ env.limits.maxElementSize ∧ (env.flags.minimalData → Element.needsPush data) := by
  unfold push at h
  split at h
  · cases h
  · rename_i hsize
    refine ⟨Nat.le_of_not_lt hsize, fun hminimal => ?_⟩
    rw [hexec, if_neg (by simp), hminimal] at h
    split at h
    · cases h
    · rename_i hneeded
      simpa using hneeded

/-- All pushes of a script without flow control that runs to a success are executed. -/
theorem needsPush_of_run {script : Script} (hstraight : ∀ c ∈ script, c.isStraight)
    (h : s.run config script = .ok ()) :
    ∀ data, .push data ∈ script →
      data.length ≤ config.limits.maxElementSize ∧
        (config.flags.minimalData → Element.needsPush data) := by
  intro data hdata
  obtain ⟨front, back, rfl⟩ := List.append_of_mem hdata
  obtain ⟨-, hexecuted⟩ := executed_of_run hstraight h
  obtain ⟨before, hbefore, hexec⟩ := hexecuted front _ back rfl
  rw [run_append, hbefore] at h
  have hrest : before.run config (.push data :: back) = .ok () := h
  obtain ⟨last, hsteps, -⟩ := bind_eq_ok hrest
  obtain ⟨next, hstep, -⟩ := bind_eq_ok hsteps
  obtain ⟨after, hpush, -⟩ := bind_eq_ok hstep
  exact needsPush_of_push hexec hpush

end Plain

namespace Script

variable {body : Bytes} {script : Script}

/-- A body that is read without its length is divided into words. -/
theorem isSplit_of_parseRaw (hsize : body.length < 2 ^ 64) (h : parseRaw body = .ok script) :
    ∃ words, IsSplit body script words := by
  rw [parseRaw_eq hsize] at h
  exact decode_eq_ok_iff.1 (ok_of_mapError h)

/-- If no command is an empty push and none is too large, writing the commands of a body gives a body
with these commands, which is no longer. -/
theorem encode_of_isSplit {words : List Bytes} (hsize : body.length < 2 ^ 64)
    (hsplit : IsSplit body script words) (hempty : .push [] ∉ script)
    (hfits : ∀ data, .push data ∈ script → data.length ≤ maxElementSize) :
    ∃ shortest, encode script = .ok shortest ∧ parseRaw shortest = .ok script ∧
      shortest.length ≤ body.length := by
  obtain ⟨shortest, hencode, hdecode⟩ := decode_of_isWritable (isWritable_of_isSplit hsplit hfits)
  have hle := length_encode_le hsplit hencode
  have hsame : ∀ command ∈ script, command.canonical = command := by
    intro command hcommand
    exact Command.canonical_of_ne fun h => hempty (h ▸ hcommand)
  have hcanonical : script.map Command.canonical = script :=
    (List.map_congr_left hsame).trans script.map_id
  refine ⟨shortest, hencode, ?_, hle⟩
  rw [parseRaw_eq (Nat.lt_of_le_of_lt hle hsize), hdecode, hcanonical]
  rfl

end Script

/-- If a script without flow control is read from a body and runs to a success while pushes have to be
minimal, then it pushes no data for which there is an opcode. Writing it gives that body exactly if each
push can be written and was spelled as shortly as it can be; a longer spelling is not noticed. In any
case what is written, if no push is too large for it, is read as the same script and is no longer. -/
theorem evaluation_pushes_needed {config : Config} {body : Bytes} {script : Script}
    {witness : List Bytes} {pool : BufferPool} (hp2sh : config.flags.p2sh = false)
    (hwitness : config.flags.witness = false) (hminimal : config.flags.minimalData)
    (hsize : body.length < 2 ^ 64) (hparse : Script.parseRaw body = .ok script)
    (hstraight : ∀ c ∈ script, c.isStraight)
    (h : (evaluateWith config script witness pool).succeeded) :
    (∀ data, .push data ∈ script →
        Element.needsPush data ∧ data.length ≤ config.limits.maxElementSize) ∧
      ∃ words, Script.IsSplit body script words ∧
        (Script.encode script = .ok body ↔
          (∀ data, .push data ∈ script → data.length ≤ Script.maxElementSize) ∧
            List.Forall₂ Script.IsShortest script words) ∧
        ((∀ data, .push data ∈ script → data.length ≤ Script.maxElementSize) →
          ∃ shortest, Script.encode script = .ok shortest ∧
            Script.parseRaw shortest = .ok script ∧ shortest.length ≤ body.length) := by
  have hrun : (Plain.initial config.limits).run config script = .ok () := by
    have hresult : (evaluateWith config script witness pool).result = .ok () := by
      unfold Outcome.succeeded at h
      cases hresult : (evaluateWith config script witness pool).result with
      | ok _ => rfl
      | error e =>
        rw [hresult] at h
        cases h
    rw [evaluateWith_result hp2sh hwitness] at hresult
    split at hresult
    · cases hresult
    · exact hresult
  have hpushes := Plain.needsPush_of_run hstraight hrun
  have hempty : .push [] ∉ script := fun hmem => absurd ((hpushes [] hmem).2 hminimal) (by decide)
  obtain ⟨words, hsplit⟩ := Script.isSplit_of_parseRaw hsize hparse
  exact ⟨fun data hdata => ⟨(hpushes data hdata).2 hminimal, (hpushes data hdata).1⟩,
    words, hsplit, Script.encode_eq_body_iff hsplit, Script.encode_of_isSplit hsize hsplit hempty⟩

/-- A byte that is pushed by `OP_PUSHDATA1`, although it could be pushed with the length alone. -/
theorem evaluation_pushes_needed_pushData1 :
    Script.parseRaw [0x4c, 0x01, 0xaa] = .ok [.push [0xaa]] ∧
      (evaluateWith { flags := { minimalData := true }, sighash := sha256 [] } [.push [0xaa]] []
        .empty).succeeded ∧
      Script.encode [.push [0xaa]] = .ok [0x01, 0xaa] ∧
      ∃ words, Script.IsSplit [0x4c, 0x01, 0xaa] [.push [0xaa]] words ∧
        ¬List.Forall₂ Script.IsShortest [.push [0xaa]] words := by
  have hparse : Script.parseRaw [0x4c, 0x01, 0xaa] = .ok [.push [0xaa]] :=
    Script.parseRaw_of_toOption (by decide +kernel)
  have hsucceeded : (evaluateWith { flags := { minimalData := true }, sighash := sha256 [] }
      [.push [0xaa]] [] .empty).succeeded := by
    rw [Outcome.succeeded, evaluateWith_result rfl rfl]
    rfl
  have hencode : Script.encode [.push [0xaa]] = .ok [0x01, 0xaa] := rfl
  obtain ⟨-, words, hsplit, hiff, -⟩ :=
    evaluation_pushes_needed rfl rfl rfl (by decide) hparse (by decide) hsucceeded
  refine ⟨hparse, hsucceeded, hencode, words, hsplit, fun hshortest => ?_⟩
  have hbody := hiff.2 ⟨by simp [Script.maxElementSize], hshortest⟩
  rw [hencode] at hbody
  cases hbody

end CoinScript
