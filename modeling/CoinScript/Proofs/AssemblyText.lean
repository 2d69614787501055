import CoinScript.Proofs.Reencoding

/-!
# Assembly text

The text of a script is the texts of its commands with blanks between them. It can be read back: no text of
a command has a blank in it, mnemonics differ from each other and from hexadecimal digits, and the digits
say which bytes are pushed. Only the push of no data is read as the opcode that it is written like. The
main result is that scripts of named opcodes with the same text are the same up to that, so they are
written as the same bytes.
-/

namespace CoinScript

/-! ## Hexadecimal digits -/

namespace Hex

/-- A digit takes one byte of text, and its value is read off that byte. -/
theorem digit_spec : ∀ n < 16, ∃ byte : UInt8, String.utf8EncodeChar (digit n) = [byte] ∧
    digitValue? byte = some (UInt8.ofNat n) := by
  intro n hn
  refine ⟨UInt8.ofNat (digit n).toNat, ?_⟩
  revert n
  decide

theorem digit_ne : ∀ n < 16, digit n ≠ ' ' ∧ digit n ≠ 'O' := by
  decide

theorem ofHalves : ∀ byte : UInt8,
    UInt8.ofNat (byte.toNat / 16) * 16 + UInt8.ofNat (byte.toNat % 16) = byte :=
  forall_byte (by decide +kernel)

theorem halves_lt (byte : UInt8) : byte.toNat / 16 < 16 ∧ byte.toNat % 16 < 16 := by
  have hbyte := byte.toNat_lt
  omega

/-- The two bytes of text that a byte is shown as. -/
theorem byteDigits_spec (byte : UInt8) :
    ∃ high low h l, (byteDigits byte).flatMap String.utf8EncodeChar = [high, low] ∧
      digitValue? high = some h ∧ digitValue? low = some l ∧ h * 16 + l = byte := by
  obtain ⟨hhigh, hlow⟩ := halves_lt byte
  obtain ⟨high, hencoded, hvalue⟩ := digit_spec _ hhigh
  obtain ⟨low, hencoded', hvalue'⟩ := digit_spec _ hlow
  refine ⟨high, low, _, _, ?_, hvalue, hvalue', ofHalves byte⟩
  rw [byteDigits, List.flatMap_cons, List.flatMap_cons, hencoded, hencoded']
  rfl

theorem decodePairs_digits (index : Nat) (bytes : Bytes) :
    decodePairs index ((bytes.flatMap byteDigits).flatMap String.utf8EncodeChar) = .ok bytes := by
  induction bytes generalizing index with
  | nil => rfl
  | cons byte bytes ih =>
    obtain ⟨high, low, h, l, htext, hhigh, hlow, hbyte⟩ := byteDigits_spec byte
    rw [List.flatMap_cons, List.flatMap_append, htext]
    simp only [List.cons_append, List.nil_append, decodePairs, hhigh, hlow, ih, Except.map, hbyte]

theorem length_digits (bytes : Bytes) :
    ((bytes.flatMap byteDigits).flatMap String.utf8EncodeChar).length = 2 * bytes.length := by
  induction bytes with
  | nil => rfl
  | cons byte bytes ih =>
    obtain ⟨high, low, h, l, htext, -⟩ := byteDigits_spec byte
    rw [List.flatMap_cons, List.flatMap_append, htext, List.length_append, ih]
    simp only [List.length_cons, List.length_nil]
    omega

/-- Bytes are read back from their digits. -/
theorem decode_encode (bytes : Bytes) : decode (encode bytes) = .ok bytes := by
  have heven : ¬2 * bytes.length % 2 = 1 := by omega
  rw [decode, encode, String.toByteArray_ofList, List.utf8Encode, List.data_toByteArray, decodeBytes,
    length_digits, if_neg heven]
  exact decodePairs_digits 0 bytes

theorem toList_encode (bytes : Bytes) : (encode bytes).toList = bytes.flatMap byteDigits :=
  String.toList_ofList

theorem not_mem_encode (bytes : Bytes) : ' ' ∉ (encode bytes).toList := by
  rw [toList_encode, List.mem_flatMap]
  rintro ⟨byte, -, hblank⟩
  obtain ⟨hhigh, hlow⟩ := halves_lt byte
  simp only [byteDigits, List.mem_cons, List.not_mem_nil, or_false] at hblank
  rcases hblank with hblank | hblank
  · exact (digit_ne _ hhigh).1 hblank.symm
  · exact (digit_ne _ hlow).1 hblank.symm

/-- The digits of some bytes begin with a digit. -/
theorem head?_encode (byte : UInt8) (bytes : Bytes) :
    (encode (byte :: bytes)).toList.head? = some (digit (byte.toNat / 16)) := by
  rw [toList_encode]
  rfl

end Hex

/-! ## Mnemonics -/

namespace Opcode

/-- The opcode with the given mnemonic, if there is one. -/
def ofMnemonic? (text : String) : Option Opcode := all.find? (·.mnemonic == text)

theorem mem_all (op : Opcode) : op ∈ all := List.mem_of_find?_eq_some (ofByte?_byte op)

@[simp] theorem ofMnemonic?_mnemonic (op : Opcode) : ofMnemonic? op.mnemonic = some op := by
  have hall : ∀ op ∈ all, ofMnemonic? op.mnemonic = some op := by decide +kernel
  exact hall op (mem_all op)

theorem mnemonic_spec (op : Opcode) :
    op.mnemonic.toList.head? = some 'O' ∧ ' ' ∉ op.mnemonic.toList := by
  have hall : ∀ op ∈ all, op.mnemonic.toList.head? = some 'O' ∧ ' ' ∉ op.mnemonic.toList := by
    decide +kernel
  exact hall op (mem_all op)

/-- No mnemonic is a text of digits. -/
theorem ofMnemonic?_encode (byte : UInt8) (bytes : Bytes) :
    ofMnemonic? (Hex.encode (byte :: bytes)) = none := by
  rw [ofMnemonic?, List.find?_eq_none]
  intro op _ hsame
  have hhead := (mnemonic_spec op).1
  rw [beq_iff_eq.1 hsame, Hex.head?_encode] at hhead
  exact (Hex.digit_ne _ (Hex.halves_lt byte).1).2 (Option.some.inj hhead)

end Opcode

/-! ## Texts of commands -/

namespace Command

variable {command : Command}

/-- Whether a command is a push or an opcode that has a name. -/
def isNamed : Command → Bool
  | .opcode byte => (Opcode.ofByte? byte).isSome
  | .push _ => true

/-- Reads the text of a command. -/
def ofText? (text : String) : Option Command :=
  match Opcode.ofMnemonic? text with
  | some op => some (ofOpcode op)
  | none => (Hex.decode text).toOption.map .push

/-- The text of a named command is a mnemonic or digits. -/
theorem text_cases (h : command.isNamed) :
    (∃ op, command.text = Opcode.mnemonic op ∧ command.canonical = ofOpcode op) ∨
      ∃ byte bytes, command.text = Hex.encode (byte :: bytes) ∧
        command.canonical = .push (byte :: bytes) := by
  cases command with
  | opcode byte =>
    obtain ⟨op, hop⟩ := Option.isSome_iff_exists.1 h
    refine .inl ⟨op, ?_, ?_⟩
    · rw [text, Opcode.mnemonicOf, hop]
    · exact congrArg Command.opcode (Opcode.byte_of_ofByte? hop).symm
  | push data =>
    cases data with
    | nil => exact .inl ⟨.op0, rfl, rfl⟩
    | cons byte bytes => exact .inr ⟨byte, bytes, rfl, rfl⟩

/-- A command is read back from its text. -/
theorem ofText?_text (h : command.isNamed) : ofText? command.text = some command.canonical := by
  rcases text_cases h with ⟨op, htext, hcommand⟩ | ⟨byte, bytes, htext, hcommand⟩
  · rw [htext, hcommand, ofText?, Opcode.ofMnemonic?_mnemonic]
  · rw [htext, hcommand, ofText?, Opcode.ofMnemonic?_encode, Hex.decode_encode]
    rfl

/-- The text of a command is a single token. -/
theorem isToken_text (h : command.isNamed) :
    command.text.toList ≠ [] ∧ ' ' ∉ command.text.toList := by
  rcases text_cases h with ⟨op, htext, -⟩ | ⟨byte, bytes, htext, -⟩
  · rw [htext]
    obtain ⟨hhead, hblank⟩ := Opcode.mnemonic_spec op
    refine ⟨fun hnil => ?_, hblank⟩
    rw [hnil] at hhead
    cases hhead
  · rw [htext]
    refine ⟨fun hnil => ?_, Hex.not_mem_encode _⟩
    have hhead := Hex.head?_encode byte bytes
    rw [hnil] at hhead
    cases hhead

theorem text_canonical (command : Command) : command.canonical.text = command.text := by
  by_cases hempty : command = .push []
  · rw [hempty]
    rfl
  · rw [canonical_of_ne hempty]

end Command

/-! ## Texts of scripts -/

namespace Script

variable {script : Script}

/-- Reads the text of a script. -/
def ofAsm? (text : String) : Option Script :=
  match text.toList.splitOn ' ' with
  | [[]] => some []
  | tokens => tokens.mapM fun token => Command.ofText? (String.ofList token)

/-- The tokens of a text are the texts of the commands. -/
theorem splitOn_asm (hnamed : ∀ command ∈ script, command.isNamed) (hne : script ≠ []) :
    script.asm.toList.splitOn ' ' = script.map fun command => command.text.toList := by
  have htokens : ∀ token ∈ script.map fun command => command.text.toList, ' ' ∉ token := by
    intro token htoken
    obtain ⟨command, hcommand, rfl⟩ := List.mem_map.1 htoken
    exact (Command.isToken_text (hnamed command hcommand)).2
  rw [asm, String.toList_intercalate, List.map_map]
  exact List.splitOn_intercalate ' ' htokens (by simpa using hne)

theorem mapM_ofText? (hnamed : ∀ command ∈ script, command.isNamed) :
    (script.map fun command => command.text.toList).mapM
        (fun token => Command.ofText? (String.ofList token)) =
      some (script.map Command.canonical) := by
  induction script with
  | nil => rfl
  | cons command script ih =>
    obtain ⟨hfirst, hothers⟩ := List.forall_mem_cons.1 hnamed
    rw [List.map_cons, List.mapM_cons, String.ofList_toList, Command.ofText?_text hfirst, ih hothers]
    rfl

/-- A script of named opcodes is read back from its text. -/
theorem ofAsm?_asm (hnamed : ∀ command ∈ script, command.isNamed) :
    ofAsm? script.asm = some (script.map Command.canonical) := by
  cases script with
  | nil => rfl
  | cons command script =>
    have hfirst := (Command.isToken_text (hnamed command List.mem_cons_self)).1
    unfold ofAsm?
    rw [splitOn_asm hnamed (List.cons_ne_nil _ _)]
    split
    · rename_i hempty
      exact absurd (List.cons.inj hempty).1 hfirst
    · exact mapM_ofText? hnamed

theorem asm_canonical (script : Script) : asm (script.map Command.canonical) = script.asm := by
  rw [asm, List.map_map]
  exact congrArg _ (List.map_congr_left fun command _ => command.text_canonical)

/-- Two scripts whose opcodes have names have the same assembly text exactly if they have the same
commands, apart from pushes of no data in place of the opcode that does the same. Then they are written
as the same bytes, or fail to be written with the same error. -/
theorem asm_determines_commands (first second : Script)
    (hfirst : ∀ command ∈ first, command.isNamed) (hsecond : ∀ command ∈ second, command.isNamed) :
    (first.asm = second.asm ↔ first.map Command.canonical = second.map Command.canonical) ∧
      (first.asm = second.asm → encode first = encode second) := by
  have hsame : first.asm = second.asm → first.map Command.canonical = second.map Command.canonical := by
    intro htext
    have hread := ofAsm?_asm hfirst
    rw [htext, ofAsm?_asm hsecond] at hread
    exact (Option.some.inj hread).symm
  refine ⟨⟨hsame, fun hcommands => ?_⟩, fun htext => ?_⟩
  · rw [← asm_canonical first, hcommands, asm_canonical]
  · rw [← encode_canonical first, hsame htext, encode_canonical]

/-- A push of no data and the opcode for it, in front of a push that reads like a number. -/
theorem asm_determines_commands_empty_push :
    asm [.push [], .push [0x10], .ofOpcode .opAdd] =
        asm [.ofOpcode .op0, .push [0x10], .ofOpcode .opAdd] ∧
      asm [.push [0x10]] ≠ asm [.ofOpcode .op10] ∧
      encode [.push [], .push [0x10], .ofOpcode .opAdd] =
        encode [.ofOpcode .op0, .push [0x10], .ofOpcode .opAdd] := by
  obtain ⟨hiff, hencode⟩ := asm_determines_commands [.push [], .push [0x10], .ofOpcode .opAdd]
    [.ofOpcode .op0, .push [0x10], .ofOpcode .opAdd] (by decide) (by decide)
  have hasm := hiff.2 rfl
  refine ⟨hasm, fun hsame => ?_, hencode hasm⟩
  have hcommands := (asm_determines_commands _ _ (by decide) (by decide)).1.1 hsame
  cases hcommands

end Script

end CoinScript
