import CoinScript.Proofs.RoundTrip

/-!
# Shortest words

A body can spell a push with a longer header than its data needs, and a push of no data in place of the
opcode that does the same. Writing a script spells each command as shortly as it can be. So what is
written for the commands of a body is no longer than the body, and it is the body itself exactly if all
its words are the shortest ones.
-/

namespace CoinScript.Script

variable {command : Command} {script : Script} {data word written header body shortest : Bytes}
  {words : List Bytes}

/-- No word is shorter whose command is read back as the same. -/
def IsShortest (command : Command) (word : Bytes) : Prop :=
  IsWord command word ∧ ∀ (other : Command) (otherWord : Bytes),
    other.canonical = command.canonical → IsWord other otherWord → word.length ≤ otherWord.length

/-! ## Single words -/

/-- The three ways to spell a push. -/
theorem IsWord.length_push (h : IsWord (.push data) word) :
    (1 ≤ data.length ∧ data.length ≤ 75 ∧ word.length = data.length + 1) ∨
      (data.length ≤ 255 ∧ word.length = data.length + 2) ∨ word.length = data.length + 3 := by
  cases h with
  | direct hleast hmost hsize => exact .inl ⟨by omega, by omega, rfl⟩
  | @pushData1 size _ hsize =>
    have hbyte := size.toNat_lt
    exact .inr (.inl ⟨by omega, rfl⟩)
  | pushData2 hsize => exact .inr (.inr rfl)

/-- A command has one word of each length. -/
theorem IsWord.eq_of_length {word' : Bytes} (h : IsWord command word) (h' : IsWord command word')
    (hlength : word.length = word'.length) : word = word' := by
  cases h with
  | opcode _ =>
    cases h'
    rfl
  | direct _ _ hsize =>
    cases h' with
    | direct _ _ hsize' => rw [UInt8.toNat_inj.1 (hsize.symm.trans hsize')]
    | _ =>
      simp only [List.length_cons] at hlength
      omega
  | pushData1 hsize =>
    cases h' with
    | pushData1 hsize' => rw [UInt8.toNat_inj.1 (hsize.symm.trans hsize')]
    | _ =>
      simp only [List.length_cons] at hlength
      omega
  | @pushData2 low high _ hsize =>
    cases h' with
    | @pushData2 low' high' _ hsize' =>
      have hlow := low.toNat_lt
      have hlow' := low'.toNat_lt
      have hlows : low.toNat = low'.toNat := by omega
      have hhighs : high.toNat = high'.toNat := by omega
      rw [UInt8.toNat_inj.1 hlows, UInt8.toNat_inj.1 hhighs]
    | _ =>
      simp only [List.length_cons] at hlength
      omega

theorem length_of_pushHeader {size : Nat} (h : pushHeader size = .ok header) :
    size ≤ maxElementSize ∧
      header.length = if size ≤ 75 then 1 else if size ≤ 255 then 2 else 3 := by
  unfold pushHeader at h
  split at h
  · rename_i hdirect
    have hdirect : size ≤ 75 := hdirect
    cases h
    exact ⟨Nat.le_trans hdirect (by decide), (if_pos hdirect).symm⟩
  · rename_i hdirect
    have hdirect : ¬size ≤ 75 := hdirect
    rw [if_neg hdirect]
    split at h
    · rename_i hone
      cases h
      exact ⟨Nat.le_trans hone (by decide), (if_pos hone).symm⟩
    · rename_i hone
      rw [if_neg hone]
      split at h
      · rename_i hfits
        cases h
        exact ⟨hfits, rfl⟩
      · cases h

theorem length_of_encodeCommand (h : encodeCommand (.push data) = .ok written) :
    data.length ≤ maxElementSize ∧ written.length = data.length +
      if data.length ≤ 75 then 1 else if data.length ≤ 255 then 2 else 3 := by
  cases hheader : pushHeader data.length with
  | error error =>
    rw [encodeCommand, hheader] at h
    cases h
  | ok header =>
    rw [encodeCommand, hheader] at h
    cases h
    obtain ⟨hfits, hlength⟩ := length_of_pushHeader hheader
    exact ⟨hfits, by rw [List.length_append, hlength, Nat.add_comm]⟩

/-- What is written for a command is no longer than a word for it. -/
theorem length_encodeCommand_le (hword : IsWord command word)
    (h : encodeCommand command = .ok written) : written.length ≤ word.length := by
  cases command with
  | opcode byte =>
    cases hword
    cases h
    exact Nat.le_refl _
  | push data =>
    have hwritten := (length_of_encodeCommand h).2
    have hforms := hword.length_push
    split at hwritten
    · omega
    · split at hwritten <;> omega

/-- A command that has a word can be written, unless its data is too large. -/
theorem isWritable_of_isWord (hword : IsWord command word)
    (hfits : ∀ data, command = .push data → data.length ≤ maxElementSize) : command.isWritable := by
  cases command with
  | opcode byte =>
    cases hword with
    | opcode hbyte =>
      simp only [Command.isWritable, Bool.or_eq_true, beq_iff_eq, decide_eq_true_eq,
        UInt8.le_iff_toNat_le]
      exact hbyte.imp (fun h => UInt8.toNat_inj.1 h) fun h => h
  | push data => exact decide_eq_true (hfits data rfl)

theorem isWritable_of_encodeCommand (hword : IsWord command word)
    (h : encodeCommand command = .ok written) : command.isWritable := by
  refine isWritable_of_isWord hword ?_
  rintro data rfl
  exact (length_of_encodeCommand h).1

/-- What is written for a command is a shortest word for what it is read back as. -/
theorem length_encodeCommand_le_of_canonical {other : Command} (hword : IsWord other word)
    (hsame : other.canonical = command.canonical) (h : encodeCommand command = .ok written) :
    written.length ≤ word.length := by
  by_cases hempty : command = .push []
  · subst hempty
    cases h
    exact List.length_pos_iff.2 hword.ne_nil
  · rw [Command.canonical_of_ne hempty] at hsame
    by_cases hother : other = .push []
    · subst hother
      subst hsame
      cases h
      exact List.length_pos_iff.2 hword.ne_nil
    · rw [Command.canonical_of_ne hother] at hsame
      subst hsame
      exact length_encodeCommand_le hword h

/-- A word is what is written for its command if it is a shortest one. -/
theorem encodeCommand_eq_ok_iff (hword : IsWord command word) :
    encodeCommand command = .ok word ↔ command.isWritable ∧ IsShortest command word := by
  constructor
  · intro h
    refine ⟨isWritable_of_encodeCommand hword h, hword, ?_⟩
    intro other otherWord hsame hother
    exact length_encodeCommand_le_of_canonical hother hsame h
  · rintro ⟨hwritable, -, hshortest⟩
    by_cases hempty : command = .push []
    · -- A push of no data has no word that is as short as the opcode.
      subst hempty
      have hlength : word.length ≤ 1 :=
        hshortest (.ofOpcode .op0) [0x00] rfl (.opcode (.inl rfl))
      have hforms := hword.length_push
      simp only [List.length_nil] at hforms
      omega
    · obtain ⟨written, hwritten, hcanonical⟩ := encodeCommand_of_isWritable hwritable
      rw [Command.canonical_of_ne hempty] at hcanonical
      have hle := hshortest command written rfl hcanonical
      have hge := length_encodeCommand_le hword hwritten
      rw [hwritten, hcanonical.eq_of_length hword (Nat.le_antisymm hge hle)]

/-! ## Bodies -/

theorem isWritable_of_isSplit (hsplit : IsSplit body script words)
    (hfits : ∀ data, .push data ∈ script → data.length ≤ maxElementSize) :
    ∀ command ∈ script, command.isWritable := by
  obtain ⟨hwords, -⟩ := hsplit
  induction hwords with
  | nil => exact nofun
  | cons hword _ ih =>
    refine List.forall_mem_cons.2 ⟨isWritable_of_isWord hword ?_, ih ?_⟩
    · rintro data rfl
      exact hfits data List.mem_cons_self
    · exact fun data hdata => hfits data (List.mem_cons_of_mem _ hdata)

theorem length_of_encode (h : encode script = .ok written) :
    ∀ data, .push data ∈ script → data.length ≤ maxElementSize := by
  obtain ⟨writtenWords, hwrites, rfl⟩ := encode_eq_ok_iff.1 h
  clear h
  induction hwrites with
  | nil => exact nofun
  | cons hwrite _ ih =>
    intro data hdata
    rcases List.mem_cons.1 hdata with rfl | hdata
    · exact (length_of_encodeCommand hwrite).1
    · exact ih data hdata

/-- What is written for the commands of a body is no longer than the body. -/
theorem length_encode_le (hsplit : IsSplit body script words) (h : encode script = .ok written) :
    written.length ≤ body.length := by
  obtain ⟨hwords, rfl⟩ := hsplit
  obtain ⟨writtenWords, hwrites, rfl⟩ := encode_eq_ok_iff.1 h
  clear h
  induction hwords generalizing writtenWords with
  | nil =>
    cases hwrites
    exact Nat.le_refl _
  | cons hword _ ih =>
    cases hwrites with
    | cons hwrite hwrites =>
      have hfirst := length_encodeCommand_le hword hwrite
      have hothers := ih _ hwrites
      rw [List.flatten_cons, List.flatten_cons, List.length_append, List.length_append]
      omega

theorem forall_encodeCommand_of_isShortest (h : List.Forall₂ IsShortest script words)
    (hwritable : ∀ command ∈ script, command.isWritable) :
    List.Forall₂ (fun command word => encodeCommand command = .ok word) script words := by
  induction h with
  | nil => exact .nil
  | cons hfirst _ ih =>
    obtain ⟨hwrite, hwrites⟩ := List.forall_mem_cons.1 hwritable
    exact .cons ((encodeCommand_eq_ok_iff hfirst.1).2 ⟨hwrite, hfirst⟩) (ih hwrites)

/-- The commands of a body are written as that body exactly if they can be written and each of them is
spelled as shortly as it can be. -/
theorem encode_eq_body_iff (hsplit : IsSplit body script words) :
    encode script = .ok body ↔
      (∀ data, .push data ∈ script → data.length ≤ maxElementSize) ∧
        List.Forall₂ IsShortest script words := by
  constructor
  · intro h
    have hfits := length_of_encode h
    obtain ⟨writtenWords, hwrites, hwords⟩ := words_of_isWritable (isWritable_of_isSplit hsplit hfits)
    have hwritten : encode script = .ok writtenWords.flatten :=
      encode_eq_ok_iff.2 ⟨writtenWords, hwrites, rfl⟩
    rw [h, Except.ok.injEq] at hwritten
    -- The body is divided into the words that are written for it, and in no other way.
    obtain ⟨-, rfl⟩ := hsplit.unique ⟨hwords, hwritten.symm⟩
    refine ⟨hfits, hsplit.1.mp ?_ hwrites⟩
    exact fun command word hword hwrite => ((encodeCommand_eq_ok_iff hword).1 hwrite).2
  · rintro ⟨hfits, hshortest⟩
    have hwrites := forall_encodeCommand_of_isShortest hshortest (isWritable_of_isSplit hsplit hfits)
    exact encode_eq_ok_iff.2 ⟨words, hwrites, hsplit.2⟩

end CoinScript.Script
