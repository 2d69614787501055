import CoinScript.Proofs.LengthPrefix
import CoinScript.Proofs.Words

/-!
# Writing and reading back

The word that is written for a command stands for that command, except that a push of no data is written
like the opcode that pushes the empty element. So a script that is written is read back, and the length
in front of it says where it ends. The main result is about scripts that are written one after the other
into a stream, whatever comes after them.
-/

namespace CoinScript

namespace Command

/-- Whether a command has a word of its own: its opcode does not start a push, or its data is not too
large. -/
def isWritable : Command → Bool
  | .opcode byte => byte == 0x00 || 0x4e ≤ byte
  | .push data => data.length ≤ Script.maxElementSize

/-- What a command is read back as. -/
def canonical : Command → Command
  | .push [] => ofOpcode .op0
  | command => command

theorem canonical_of_ne {command : Command} (h : command ≠ .push []) :
    command.canonical = command := by
  unfold canonical
  split
  · exact absurd rfl h
  · rfl

end Command

namespace Script

variable {command : Command} {script : Script} {body tail : Bytes} {words : List Bytes}

/-! ## Commands -/

/-- The header in front of data makes a word of it. -/
theorem isWord_of_pushHeader {data : Bytes} (hne : data ≠ []) (hfits : data.length ≤ maxElementSize) :
    ∃ header, pushHeader data.length = .ok header ∧ IsWord (.push data) (header ++ data) := by
  have hpos := List.length_pos_iff.2 hne
  have hmost : data.length ≤ 520 := hfits
  have hbyte : ∀ n, (UInt8.ofNat n).toNat = n % 256 := fun n => UInt8.toNat_ofNat'
  unfold pushHeader
  split
  · rename_i hdirect
    simp only [maxDirectPush] at hdirect
    refine ⟨_, rfl, .direct ?_ ?_ ?_⟩ <;> rw [hbyte] <;> omega
  · split
    · rename_i hone
      refine ⟨_, rfl, .pushData1 ?_⟩
      rw [hbyte]
      omega
    · refine ⟨_, rfl, .pushData2 ?_⟩
      rw [hbyte, hbyte]
      omega

/-- What is written for a command is a word, and the word is read as that command. -/
theorem encodeCommand_of_isWritable (h : command.isWritable) :
    ∃ word, encodeCommand command = .ok word ∧ IsWord command.canonical word := by
  cases command with
  | opcode byte =>
    refine ⟨_, rfl, .opcode ?_⟩
    simp only [Command.isWritable, Bool.or_eq_true, beq_iff_eq, decide_eq_true_eq,
      UInt8.le_iff_toNat_le] at h
    rcases h with rfl | h
    · exact .inl rfl
    · exact .inr h
  | push data =>
    cases data with
    | nil => exact ⟨_, rfl, .opcode (.inl rfl)⟩
    | cons byte rest =>
      obtain ⟨header, hheader, hword⟩ :=
        isWord_of_pushHeader (List.cons_ne_nil byte rest) (of_decide_eq_true h)
      refine ⟨header ++ byte :: rest, ?_, hword⟩
      rw [encodeCommand, hheader]
      rfl

/-! ## Bodies -/

/-- A body is what is written for the commands, one after the other. -/
theorem encode_eq_ok_iff :
    encode script = .ok body ↔ ∃ words,
      List.Forall₂ (fun command word => encodeCommand command = .ok word) script words ∧
        words.flatten = body := by
  induction script generalizing body with
  | nil =>
    constructor
    · intro h
      cases h
      exact ⟨[], .nil, rfl⟩
    · rintro ⟨words, hwords, rfl⟩
      cases hwords
      rfl
  | cons command script ih =>
    rw [encode]
    constructor
    · intro h
      cases hword : encodeCommand command with
      | error error =>
        rw [hword] at h
        cases h
      | ok word =>
        cases hrest : encode script with
        | error error =>
          rw [hword, hrest] at h
          cases h
        | ok rest =>
          rw [hword, hrest] at h
          cases h
          obtain ⟨words, hwords, rfl⟩ := ih.1 hrest
          exact ⟨word :: words, .cons hword hwords, rfl⟩
    · rintro ⟨words, hwords, rfl⟩
      cases hwords with
      | cons hword hwords =>
        rw [hword, ih.2 ⟨_, hwords, rfl⟩]
        rfl

theorem words_of_isWritable (h : ∀ command ∈ script, command.isWritable) :
    ∃ words, List.Forall₂ (fun command word => encodeCommand command = .ok word) script words ∧
      List.Forall₂ IsWord (script.map Command.canonical) words := by
  induction script with
  | nil => exact ⟨[], .nil, .nil⟩
  | cons command script ih =>
    obtain ⟨hfirst, hothers⟩ := List.forall_mem_cons.1 h
    obtain ⟨word, hwrite, hword⟩ := encodeCommand_of_isWritable hfirst
    obtain ⟨words, hwrites, hwords⟩ := ih hothers
    exact ⟨word :: words, .cons hwrite hwrites, .cons hword hwords⟩

/-- A body that is written is decoded again. -/
theorem decode_of_isWritable (h : ∀ command ∈ script, command.isWritable) :
    ∃ body, encode script = .ok body ∧ decode body = .ok (script.map Command.canonical) := by
  obtain ⟨words, hwrites, hwords⟩ := words_of_isWritable h
  exact ⟨words.flatten, encode_eq_ok_iff.2 ⟨words, hwrites, rfl⟩,
    decode_eq_ok_iff.2 ⟨words, hwords, rfl⟩⟩

/-! ## Serialized scripts -/

/-- The length in front of a body says where it ends. -/
theorem parse_of_body (hsize : body.length < 2 ^ 64) :
    parse (CompactSize.encode body.length ++ body ++ tail) =
      ((decode body).mapError .decode, tail) := by
  have hread : read (CompactSize.encode body.length ++ body ++ tail) = (decode body, tail) := by
    unfold read
    rw [List.append_assoc, CompactSize.read_encode hsize]
    simp only [List.take_left, Nat.lt_irrefl, if_false, List.drop_left]
  rw [parse, hread]

/-- Reading a body without its length is decoding it. -/
theorem parseRaw_eq (hsize : body.length < 2 ^ 64) :
    parseRaw body = (decode body).mapError .decode := by
  have hparse : parse (CompactSize.encode body.length ++ body ++ []) =
      ((decode body).mapError .decode, []) := parse_of_body hsize
  rw [List.append_nil] at hparse
  simp only [parseRaw, parseRawWith, Buffer.append, BufferPool.borrow_bytes, List.nil_append, hparse]

/-- A script of commands that have a word of their own can be serialized, and what is serialized is
read back from the front of any input. -/
theorem parse_of_isWritable (h : ∀ command ∈ script, command.isWritable) :
    ∃ bytes, serialize script = .ok bytes ∧
      (bytes.length < 2 ^ 64 → ∀ tail,
        parse (bytes ++ tail) = (.ok (script.map Command.canonical), tail)) := by
  obtain ⟨body, hencode, hdecode⟩ := decode_of_isWritable h
  refine ⟨CompactSize.encode body.length ++ body, ?_, ?_⟩
  · rw [serialize, hencode]
    rfl
  · intro hsize tail
    rw [List.length_append] at hsize
    rw [parse_of_body (by omega), hdecode]
    rfl

/-! ## Streams -/

/-- Reads a number of serialized scripts, one after the other. -/
def parseMany : Nat → Bytes → Except Error (List Script) × Bytes
  | 0, input => (.ok [], input)
  | count + 1, input =>
    match parse input with
    | (.error error, rest) => (.error error, rest)
    | (.ok script, rest) =>
      let (scripts, last) := parseMany count rest
      (scripts.map (script :: ·), last)

theorem parseMany_of_isWritable {scripts : List Script}
    (h : ∀ script ∈ scripts, ∀ command ∈ script, command.isWritable) :
    ∃ written, List.Forall₂ (fun script bytes => serialize script = .ok bytes) scripts written ∧
      ((∀ bytes ∈ written, bytes.length < 2 ^ 64) → ∀ tail,
        parseMany scripts.length (written.flatten ++ tail) =
          (.ok (scripts.map fun script => script.map Command.canonical), tail)) := by
  induction scripts with
  | nil => exact ⟨[], .nil, fun _ tail => rfl⟩
  | cons script scripts ih =>
    obtain ⟨hfirst, hothers⟩ := List.forall_mem_cons.1 h
    obtain ⟨bytes, hbytes, hparse⟩ := parse_of_isWritable hfirst
    obtain ⟨written, hwritten, hmany⟩ := ih hothers
    refine ⟨bytes :: written, .cons hbytes hwritten, ?_⟩
    intro hsizes tail
    obtain ⟨hsize, hsizes⟩ := List.forall_mem_cons.1 hsizes
    rw [List.flatten_cons, List.append_assoc, List.length_cons, parseMany, hparse hsize]
    simp only [hmany hsizes tail, List.map_cons, Except.map]

/-- What is serialized is read back from the front of any input, and leaves what comes after it; only
pushes of no data are read as the opcode that they are written as. So scripts that are serialized one
after the other are read back one after the other. A length has at most eight bytes, hence the bound. -/
theorem serialized_scripts_read_back :
    (∀ script : Script, (∀ command ∈ script, command.isWritable) →
      ∃ bytes, serialize script = .ok bytes ∧
        (bytes.length < 2 ^ 64 → ∀ tail,
          parse (bytes ++ tail) = (.ok (script.map Command.canonical), tail))) ∧
      ∀ scripts : List Script, (∀ script ∈ scripts, ∀ command ∈ script, command.isWritable) →
        ∃ written,
          List.Forall₂ (fun script bytes => serialize script = .ok bytes) scripts written ∧
            ((∀ bytes ∈ written, bytes.length < 2 ^ 64) → ∀ tail,
              parseMany scripts.length (written.flatten ++ tail) =
                (.ok (scripts.map fun script => script.map Command.canonical), tail)) :=
  ⟨fun _ => parse_of_isWritable, fun _ => parseMany_of_isWritable⟩

/-- A script with a push of no data, alone and in front of another script. -/
theorem serialized_scripts_read_back_empty_push :
    (∀ tail, parse ([0x02, 0x76, 0x00] ++ tail) = (.ok [.ofOpcode .opDup, .ofOpcode .op0], tail)) ∧
      ∀ tail, parseMany 2 ([0x02, 0x76, 0x00, 0x03, 0x02, 0xaa, 0xbb] ++ tail) =
        (.ok [[.ofOpcode .opDup, .ofOpcode .op0], [.push [0xaa, 0xbb]]], tail) := by
  have hfirst : serialize [.ofOpcode .opDup, .push []] = .ok [0x02, 0x76, 0x00] := rfl
  have hsecond : serialize [.push [0xaa, 0xbb]] = .ok [0x03, 0x02, 0xaa, 0xbb] := rfl
  constructor
  · obtain ⟨bytes, hbytes, hparse⟩ :=
      serialized_scripts_read_back.1 [.ofOpcode .opDup, .push []] (by decide)
    rw [hfirst] at hbytes
    cases hbytes
    exact hparse (by decide)
  · obtain ⟨written, hwritten, hmany⟩ := serialized_scripts_read_back.2
      [[.ofOpcode .opDup, .push []], [.push [0xaa, 0xbb]]] (by decide)
    obtain ⟨bytes, others, hbytes, hothers, rfl⟩ := List.forall₂_cons_left_iff.1 hwritten
    obtain ⟨bytes', last, hbytes', hlast, rfl⟩ := List.forall₂_cons_left_iff.1 hothers
    cases hlast
    rw [hfirst] at hbytes
    rw [hsecond] at hbytes'
    cases hbytes
    cases hbytes'
    exact hmany (by decide)

end Script

end CoinScript
