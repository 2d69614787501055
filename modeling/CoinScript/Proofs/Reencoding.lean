import CoinScript.Proofs.ShortestWords

/-!
# Writing what was read

The commands of a body need not be written as the body that they were read from. Decoding accepts larger
pushes than there are words to be written, and longer words for the others. This module says when the
commands cannot be written, and what becomes of the body otherwise: it gets shorter or stays as it is, it
stands for the same commands in their canonical form, and writing them again changes nothing.
-/

namespace CoinScript.Script

variable {command : Command} {script : Script} {body : Bytes} {error : Error}

/-! ## Commands that cannot be written -/

theorem pushHeader_eq_error {size : Nat} (h : pushHeader size = .error error) :
    maxElementSize < size ∧ error = .encode size := by
  unfold pushHeader at h
  split at h
  · cases h
  · split at h
    · cases h
    · split at h
      · cases h
      · rename_i hlarge
        cases h
        exact ⟨Nat.lt_of_not_le hlarge, rfl⟩

theorem encodeCommand_eq_error (h : encodeCommand command = .error error) :
    ∃ data, command = .push data ∧ maxElementSize < data.length ∧ error = .encode data.length := by
  cases command with
  | opcode byte => cases h
  | push data =>
    cases hheader : pushHeader data.length with
    | error reason =>
      rw [encodeCommand, hheader] at h
      cases h
      obtain ⟨hlarge, rfl⟩ := pushHeader_eq_error hheader
      exact ⟨data, rfl, hlarge, rfl⟩
    | ok header =>
      rw [encodeCommand, hheader] at h
      cases h

/-- The first push that is too large is reported. -/
theorem encode_eq_error (h : encode script = .error error) :
    ∃ front data back, script = front ++ .push data :: back ∧
      (∀ other, .push other ∈ front → other.length ≤ maxElementSize) ∧
      maxElementSize < data.length ∧ error = .encode data.length := by
  induction script with
  | nil => cases h
  | cons command script ih =>
    cases hword : encodeCommand command with
    | error reason =>
      rw [encode, hword] at h
      cases h
      obtain ⟨data, rfl, hlarge, rfl⟩ := encodeCommand_eq_error hword
      exact ⟨[], data, script, rfl, fun _ hnone => absurd hnone List.not_mem_nil, hlarge, rfl⟩
    | ok word =>
      cases hrest : encode script with
      | ok rest =>
        rw [encode, hword, hrest] at h
        cases h
      | error reason =>
        rw [encode, hword, hrest] at h
        cases h
        obtain ⟨front, data, back, rfl, hfits, hlarge, rfl⟩ := ih hrest
        refine ⟨command :: front, data, back, rfl, ?_, hlarge, rfl⟩
        intro other hother
        rcases List.mem_cons.1 hother with rfl | hother
        · exact (length_of_encodeCommand hword).1
        · exact hfits other hother

theorem encode_fails_iff :
    (∃ error, encode script = .error error) ↔
      ∃ data, .push data ∈ script ∧ maxElementSize < data.length := by
  constructor
  · rintro ⟨error, h⟩
    obtain ⟨front, data, back, rfl, -, hlarge, -⟩ := encode_eq_error h
    exact ⟨data, List.mem_append_right front List.mem_cons_self, hlarge⟩
  · rintro ⟨data, hmem, hlarge⟩
    cases h : encode script with
    | error error => exact ⟨error, rfl⟩
    | ok written => exact absurd (length_of_encode h data hmem) (Nat.not_le.2 hlarge)

/-! ## Canonical commands -/

theorem encodeCommand_canonical (command : Command) :
    encodeCommand command.canonical = encodeCommand command := by
  by_cases hempty : command = .push []
  · rw [hempty]
    rfl
  · rw [Command.canonical_of_ne hempty]

/-- A command is written like what it is read back as. -/
theorem encode_canonical (script : Script) :
    encode (script.map Command.canonical) = encode script := by
  induction script with
  | nil => rfl
  | cons command script ih => rw [List.map_cons, encode, encode, encodeCommand_canonical, ih]

/-- Writing the commands that a body is decoded to fails exactly if one of them pushes too much, and the
size of the first such push is reported. Otherwise what is written is no longer than the body, it is
decoded to the same commands with opcodes in place of the pushes of no data, and these are written as the
same bytes. It is the body itself exactly if all words of the body are as short as they can be. -/
theorem decoded_body_rewritten (body : Bytes) (script : Script) (hdecode : decode body = .ok script) :
    ((∃ error, encode script = .error error) ↔
        ∃ data, .push data ∈ script ∧ maxElementSize < data.length) ∧
      (∀ error, encode script = .error error →
        ∃ front data back, script = front ++ .push data :: back ∧
          (∀ other, .push other ∈ front → other.length ≤ maxElementSize) ∧
          maxElementSize < data.length ∧ error = .encode data.length) ∧
      ((∀ data, .push data ∈ script → data.length ≤ maxElementSize) →
        ∃ written words, encode script = .ok written ∧ written.length ≤ body.length ∧
          decode written = .ok (script.map Command.canonical) ∧
          encode (script.map Command.canonical) = .ok written ∧
          IsSplit body script words ∧
          (written = body ↔ List.Forall₂ IsShortest script words)) := by
  refine ⟨encode_fails_iff, fun error => encode_eq_error, ?_⟩
  intro hfits
  obtain ⟨words, hsplit⟩ := decode_eq_ok_iff.1 hdecode
  obtain ⟨written, hwritten, hagain⟩ := decode_of_isWritable (isWritable_of_isSplit hsplit hfits)
  refine ⟨written, words, hwritten, length_encode_le hsplit hwritten, hagain, ?_, hsplit, ?_⟩
  · rw [encode_canonical, hwritten]
  · have hsame := encode_eq_body_iff hsplit
    rw [hwritten, Except.ok.injEq] at hsame
    rw [hsame]
    exact and_iff_right hfits

/-- A push of no data and a push of one byte, each with one more byte in front than it needs. -/
theorem decoded_body_rewritten_one_byte :
    decode [0x4c, 0x00, 0x4c, 0x01, 0xaa] = .ok [.push [], .push [0xaa]] ∧
      decode [0x00, 0x01, 0xaa] = .ok [.ofOpcode .op0, .push [0xaa]] := by
  have hdecode : decode [0x4c, 0x00, 0x4c, 0x01, 0xaa] = .ok [.push [], .push [0xaa]] :=
    decode_eq_ok_iff.2
      ⟨[[0x4c, 0x00], [0x4c, 0x01, 0xaa]], .cons (.pushData1 rfl) (.cons (.pushData1 rfl) .nil), rfl⟩
  have hwritten : encode [.push [], .push [0xaa]] = .ok [0x00, 0x01, 0xaa] := rfl
  obtain ⟨written, words, hok, -, hagain, -⟩ :=
    (decoded_body_rewritten _ _ hdecode).2.2 (length_of_encode hwritten)
  rw [hwritten] at hok
  cases hok
  exact ⟨hdecode, hagain⟩

end CoinScript.Script
