import CoinScript.Proofs.Reencoding
import CoinScript.Script.Template

/-!
# Templates and their spellings

A script is recognized by its commands, and an empty element can be pushed by two of them. So there is more
than one script for some templates. All of them are encoded as the script that is built for the template, and
what is read from the encoding has that template again. The main result says so, and that a template is
recognized in the script that is built for it.
-/

namespace CoinScript

variable {template : Template} {script : Script} {body : Bytes}

/-! ## Spellings -/

/-- The scripts that have a template: the one that is built for it, and those that push the empty element
by the other command. -/
inductive Template.Spelling : Template → Script → Prop where
  | built (template : Template) : Spelling template template.script
  | program (program : WitnessProgram) :
    Spelling (.ofProgram program) [.push [], .push program.bytes]
  | noData : Spelling (.nullData []) [.ofOpcode .opReturn, .ofOpcode .op0]

theorem Command.isEmptyPush_iff {command : Command} :
    command.isEmptyPush ↔ command = .push [] ∨ command = .ofOpcode .op0 := by
  cases command with
  | push data => simp [isEmptyPush, ofOpcode]
  | opcode byte => simp [isEmptyPush, ofOpcode]

theorem Template.script_ofProgram (program : WitnessProgram) :
    (ofProgram program).script = [.ofOpcode .op0, .push program.bytes] := by
  cases program <;> rfl

namespace Script

theorem template?_script (template : Template) : template.script.template? = some template := by
  cases template with
  | pubKeyHash hash => simp [Template.script, p2pkh, Command.ofOpcode, template?]
  | scriptHash hash => simp [Template.script, p2sh, Command.ofOpcode, template?]
  | witnessPubKeyHash hash =>
    have hempty : (Command.ofOpcode .op0).isEmptyPush := by decide
    simp [Template.script, p2wpkh, template?, hempty, WitnessProgram.ofBytes?_pubKeyHash,
      Template.ofProgram]
  | witnessScriptHash hash =>
    have hempty : (Command.ofOpcode .op0).isEmptyPush := by decide
    simp [Template.script, p2wsh, template?, hempty, WitnessProgram.ofBytes?_scriptHash,
      Template.ofProgram]
  | nullData data =>
    have hfull : ¬(Command.ofOpcode .opReturn).isEmptyPush := by decide
    simp [Template.script, nullData, template?, hfull]

theorem template?_of_spelling (h : template.Spelling script) : script.template? = some template := by
  cases h with
  | built template => exact template?_script template
  | program program =>
    cases program with
    | pubKeyHash hash =>
      simp [template?, Command.isEmptyPush, WitnessProgram.bytes, WitnessProgram.ofBytes?_pubKeyHash,
        Template.ofProgram]
    | scriptHash hash =>
      simp [template?, Command.isEmptyPush, WitnessProgram.bytes, WitnessProgram.ofBytes?_scriptHash,
        Template.ofProgram]
  | noData => rfl

theorem spelling_of_template? (h : script.template? = some template) : template.Spelling script := by
  unfold template? at h
  split at h
  · rename_i dup hash data equalVerify checkSig
    split at h
    · rename_i hbytes
      obtain ⟨rfl, rfl, rfl, rfl⟩ := hbytes
      obtain ⟨digest, hdigest, rfl⟩ := Option.map_eq_some_iff.1 h
      rw [Digest.ofBytes?_eq_some_iff.1 hdigest]
      exact .built (.pubKeyHash digest)
    · cases h
  · rename_i hash data equal
    split at h
    · rename_i hbytes
      obtain ⟨rfl, rfl⟩ := hbytes
      obtain ⟨digest, hdigest, rfl⟩ := Option.map_eq_some_iff.1 h
      rw [Digest.ofBytes?_eq_some_iff.1 hdigest]
      exact .built (.scriptHash digest)
    · cases h
  · rename_i first data
    split at h
    · rename_i hempty
      obtain ⟨program, hprogram, rfl⟩ := Option.map_eq_some_iff.1 h
      rw [← WitnessProgram.bytes_of_ofBytes? hprogram]
      rcases Command.isEmptyPush_iff.1 hempty with rfl | rfl
      · exact .program program
      · rw [← Template.script_ofProgram]
        exact .built (.ofProgram program)
    · split at h
      · rename_i hreturn
        obtain rfl := hreturn
        cases h
        exact .built (.nullData data)
      · cases h
  · rename_i first second hnopush
    split at h
    · rename_i hboth
      obtain ⟨rfl, hempty⟩ := hboth
      cases h
      rcases Command.isEmptyPush_iff.1 hempty with rfl | rfl
      · exact .built (.nullData [])
      · exact .noData
    · cases h
  · cases h

/-! ## Encodings -/

theorem canonical_of_spelling (h : template.Spelling script) :
    script.map Command.canonical = template.script.map Command.canonical := by
  cases h with
  | built template => rfl
  | program program =>
    rw [Template.script_ofProgram]
    rfl
  | noData => rfl

theorem map_canonical (h : Command.push [] ∉ script) : script.map Command.canonical = script := by
  have hsame : ∀ command ∈ script, command.canonical = id command := by
    intro command hmem
    apply Command.canonical_of_ne
    rintro rfl
    exact h hmem
  rw [List.map_congr_left hsame, List.map_id]

/-- Hashes are not empty. -/
theorem eq_nullData_of_mem (h : Command.push [] ∈ template.script) : template = .nullData [] := by
  have hne : ∀ {size : Nat} (hash : Digest (size + 1)), [] ≠ hash.bytes := by
    intro size hash hnil
    have hlength := hash.length_bytes
    rw [← hnil] at hlength
    cases hlength
  cases template with
  | pubKeyHash hash => simp [Template.script, p2pkh, Command.ofOpcode, hne] at h
  | scriptHash hash => simp [Template.script, p2sh, Command.ofOpcode, hne] at h
  | witnessPubKeyHash hash => simp [Template.script, p2wpkh, Command.ofOpcode, hne] at h
  | witnessScriptHash hash => simp [Template.script, p2wsh, Command.ofOpcode, hne] at h
  | nullData data =>
    simp only [Template.script, nullData, Command.ofOpcode, List.mem_cons, reduceCtorEq,
      Command.push.injEq, List.not_mem_nil, or_false, false_or] at h
    rw [← h]

/-- The commands that are read back in place of those of a script that is built for a template have that
template. -/
theorem spelling_canonical (template : Template) :
    template.Spelling (template.script.map Command.canonical) := by
  by_cases h : Command.push [] ∈ template.script
  · obtain rfl := eq_nullData_of_mem h
    exact .noData
  · rw [map_canonical h]
    exact .built template

theorem isWritable_of_template (hbody : encode template.script = .ok body) :
    ∀ command ∈ template.script, command.isWritable := by
  have hfits := length_of_encode hbody
  intro command hmem
  cases command with
  | push data => exact decide_eq_true (hfits data hmem)
  | opcode byte =>
    cases template <;>
      simp only [Template.script, p2pkh, p2sh, p2wpkh, p2wsh, nullData, Command.ofOpcode,
        List.mem_cons, Command.opcode.injEq, reduceCtorEq, List.not_mem_nil, or_false, false_or] at hmem
    · rcases hmem with rfl | rfl | rfl | rfl <;> decide
    · rcases hmem with rfl | rfl <;> decide
    · rw [hmem]; decide
    · rw [hmem]; decide
    · rw [hmem]; decide

theorem length_le_of_encode (hbody : encode script = .ok body) : body.length ≤ 523 * script.length := by
  obtain ⟨words, hwords, rfl⟩ := encode_eq_ok_iff.1 hbody
  clear hbody
  induction hwords with
  | nil => exact Nat.zero_le _
  | @cons command word script words hword _ ih =>
    have hlength : word.length ≤ 523 := by
      cases command with
      | opcode byte =>
        cases hword
        simp
      | push data =>
        obtain ⟨hfits, hlength⟩ := length_of_encodeCommand hword
        have hmost : data.length ≤ 520 := hfits
        split at hlength
        · omega
        · split at hlength <;> omega
    rw [List.flatten_cons, List.length_append, List.length_cons]
    omega

theorem length_script_le (template : Template) : template.script.length ≤ 5 := by
  cases template <;> simp [Template.script, p2pkh, p2sh, p2wpkh, p2wsh, nullData]

/-- The commands that an encoding is read back as have the template, too. -/
theorem exists_template_of_encode (hbody : encode template.script = .ok body) :
    ∃ found, parseRaw body = .ok found ∧ found.template? = some template := by
  obtain ⟨written, hwritten, hdecode⟩ := decode_of_isWritable (isWritable_of_template hbody)
  rw [hbody] at hwritten
  cases hwritten
  have hsize : body.length < 2 ^ 64 := by
    have hlength := length_le_of_encode hbody
    have hcount := length_script_le template
    omega
  refine ⟨template.script.map Command.canonical, ?_, template?_of_spelling (spelling_canonical template)⟩
  rw [parseRaw_eq hsize, hdecode]
  rfl

/-- Recognizing a template and building a script for it are inverse up to encoding. The script that is built
for a template has that template. A script that has a template is encoded as the one that is built for it,
and fails to be encoded exactly as that one; what is read from the encoding has the template again. So all
scripts with one template have the same encoding. -/
theorem templates_survive_encoding :
    (∀ template : Template, template.script.template? = some template) ∧
      (∀ (script : Script) (template : Template), script.template? = some template →
        encode script = encode template.script ∧
          ∀ body, encode script = .ok body →
            ∃ found, parseRaw body = .ok found ∧ found.template? = some template) ∧
      ∀ (script script' : Script) (template : Template), script.template? = some template →
        script'.template? = some template → encode script = encode script' := by
  have hencode : ∀ (script : Script) (template : Template), script.template? = some template →
      encode script = encode template.script := by
    intro script template h
    rw [← encode_canonical script, canonical_of_spelling (spelling_of_template? h), encode_canonical]
  refine ⟨template?_script, ?_, ?_⟩
  · intro script template h
    refine ⟨hencode script template h, ?_⟩
    intro body hbody
    rw [hencode script template h] at hbody
    exact exists_template_of_encode hbody
  · intro script script' template h h'
    rw [hencode script template h, hencode script' template h']

/-- An output that carries no data, with either command that pushes the empty element. -/
theorem templates_survive_encoding_no_data :
    encode [.ofOpcode .opReturn, .push []] = .ok [0x6a, 0x00] ∧
      encode [.ofOpcode .opReturn, .ofOpcode .op0] = .ok [0x6a, 0x00] ∧
      ∃ found, parseRaw [0x6a, 0x00] = .ok found ∧ found.template? = some (.nullData []) := by
  obtain ⟨-, hencoded, hsame⟩ := templates_survive_encoding
  have hbody : encode [.ofOpcode .opReturn, .push []] = .ok [0x6a, 0x00] := rfl
  obtain ⟨-, hread⟩ := hencoded [.ofOpcode .opReturn, .push []] (.nullData []) rfl
  have hother := hsame [.ofOpcode .opReturn, .ofOpcode .op0] [.ofOpcode .opReturn, .push []]
    (.nullData []) rfl rfl
  exact ⟨hbody, hother.trans hbody, hread _ hbody⟩

end Script

end CoinScript
