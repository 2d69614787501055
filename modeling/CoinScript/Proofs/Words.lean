import CoinScript.Script.Codec
import Mathlib.Data.List.Forall2
import Mathlib.Logic.Function.Iterate

/-!
# Words

A body is a sequence of words, each of which stands for one command. The words are given here by their
shape alone, as a relation. The main result says that decoding accepts exactly the bodies that are
sequences of words, that a body can be divided into words in one way only, and that a cursor goes
through a body word by word, until nothing is left or the next bytes are no word.
-/

namespace CoinScript.Script

/-- A word, and the command that it stands for. -/
inductive IsWord : Command → Bytes → Prop where
  | direct {size : UInt8} {data : Bytes} (hleast : 1 ≤ size.toNat) (hmost : size.toNat ≤ 75)
      (hsize : data.length = size.toNat) : IsWord (.push data) (size :: data)
  | pushData1 {size : UInt8} {data : Bytes} (hsize : data.length = size.toNat) :
      IsWord (.push data) (0x4c :: size :: data)
  | pushData2 {low high : UInt8} {data : Bytes}
      (hsize : data.length = low.toNat + 256 * high.toNat) :
      IsWord (.push data) (0x4d :: low :: high :: data)
  | opcode {byte : UInt8} (hbyte : byte.toNat = 0 ∨ 0x4d < byte.toNat) :
      IsWord (.opcode byte) [byte]

/-- A body is the words of the commands of a script, one after the other. -/
def IsSplit (body : Bytes) (script : Script) (words : List Bytes) : Prop :=
  List.Forall₂ IsWord script words ∧ words.flatten = body

theorem IsWord.ne_nil {command : Command} {word : Bytes} (h : IsWord command word) : word ≠ [] := by
  cases h <;> exact List.cons_ne_nil _ _

/-! ## Single words -/

section Words

variable {n missing : Nat} {lead : UInt8} {input rest data word : Bytes} {command : Command}

theorem takeBytes_eq_ok_iff :
    takeBytes n input = .ok (data, rest) ↔ input = data ++ rest ∧ data.length = n := by
  simp only [takeBytes, List.length_take]
  constructor
  · intro h
    split at h
    · cases h
    · cases h
      refine ⟨(List.take_append_drop n input).symm, ?_⟩
      rw [List.length_take]
      omega
  · rintro ⟨rfl, rfl⟩
    rw [if_neg (by simp), List.take_left, List.drop_left]

theorem missing_of_takeBytes (h : takeBytes n input = .error missing) : 0 < missing := by
  simp only [takeBytes, List.length_take] at h
  split at h
  · cases h
    omega
  · cases h

theorem takePush_eq_ok_iff :
    takePush n input = .ok (command, rest) ↔
      ∃ data, command = .push data ∧ input = data ++ rest ∧ data.length = n := by
  unfold takePush
  constructor
  · intro h
    cases htaken : takeBytes n input with
    | error missing =>
      rw [htaken] at h
      cases h
    | ok taken =>
      rw [htaken] at h
      cases h
      exact ⟨taken.1, rfl, takeBytes_eq_ok_iff.1 htaken⟩
  · rintro ⟨data, rfl, h⟩
    rw [takeBytes_eq_ok_iff.2 h]
    rfl

theorem missing_of_takePush (h : takePush n input = .error missing) : 0 < missing := by
  unfold takePush at h
  cases htaken : takeBytes n input with
  | error missing =>
    rw [htaken] at h
    cases h
    exact missing_of_takeBytes htaken
  | ok taken =>
    rw [htaken] at h
    cases h

/-- A push with a length in front of `width` bytes. -/
theorem takeSized_eq_ok_iff {width : Nat} :
    (do
        let (size, rest) ← takeBytes width input
        takePush size.toNatLE rest) = .ok (command, rest) ↔
      ∃ size data, command = .push data ∧ input = size ++ data ++ rest ∧ size.length = width ∧
        data.length = size.toNatLE := by
  constructor
  · intro h
    cases htaken : takeBytes width input with
    | error missing =>
      rw [htaken] at h
      cases h
    | ok taken =>
      rw [htaken] at h
      obtain ⟨hinput, hwidth⟩ := takeBytes_eq_ok_iff.1 htaken
      obtain ⟨data, hcommand, hrest, hsize⟩ := takePush_eq_ok_iff.1 h
      refine ⟨taken.1, data, hcommand, ?_, hwidth, hsize⟩
      rw [hinput, hrest, List.append_assoc]
  · rintro ⟨size, data, hcommand, hinput, hwidth, hsize⟩
    rw [List.append_assoc] at hinput
    rw [takeBytes_eq_ok_iff.2 ⟨hinput, hwidth⟩]
    exact takePush_eq_ok_iff.2 ⟨data, hcommand, rfl, hsize⟩

theorem missing_of_takeSized {width : Nat}
    (h : (do
        let (size, rest) ← takeBytes width input
        takePush size.toNatLE rest) = .error missing) : 0 < missing := by
  cases htaken : takeBytes width input with
  | error missing =>
    rw [htaken] at h
    cases h
    exact missing_of_takeBytes htaken
  | ok taken =>
    rw [htaken] at h
    exact missing_of_takePush h

theorem decodeCommand_direct (hleast : 1 ≤ lead.toNat) (hmost : lead.toNat ≤ 75) :
    decodeCommand lead input = takePush lead.toNat input :=
  if_pos ⟨UInt8.le_iff_toNat_le.2 hleast, hmost⟩

theorem decodeCommand_opcode (hbyte : lead.toNat = 0 ∨ 0x4d < lead.toNat) :
    decodeCommand lead input = .ok (.opcode lead, input) := by
  have hpush : ¬(0x01 ≤ lead ∧ lead.toNat ≤ maxDirectPush) := by
    rw [UInt8.le_iff_toNat_le]
    simp only [maxDirectPush, UInt8.reduceToNat]
    omega
  have hne : ∀ tag : UInt8, 0 < tag.toNat ∧ tag.toNat ≤ 0x4d → lead ≠ tag := by
    rintro tag htag rfl
    omega
  rw [decodeCommand, if_neg hpush, if_neg (hne _ (by decide)), if_neg (hne _ (by decide))]

/-- A command is decoded where the input starts with a word for it. -/
theorem decodeCommand_eq_ok_iff :
    decodeCommand lead input = .ok (command, rest) ↔
      ∃ tail, IsWord command (lead :: tail) ∧ input = tail ++ rest := by
  constructor
  · intro h
    unfold decodeCommand at h
    split at h
    · rename_i hdirect
      obtain ⟨data, rfl, hinput, hsize⟩ := takePush_eq_ok_iff.1 h
      exact ⟨data, .direct (UInt8.le_iff_toNat_le.1 hdirect.1) hdirect.2 hsize, hinput⟩
    · rename_i hdirect
      split at h
      · rename_i hlead
        obtain ⟨size, data, rfl, hinput, hwidth, hsize⟩ := takeSized_eq_ok_iff.1 h
        obtain ⟨byte, rfl⟩ := List.length_eq_one_iff.1 hwidth
        subst hlead
        exact ⟨byte :: data, .pushData1 hsize, hinput⟩
      · rename_i hlead₁
        split at h
        · rename_i hlead
          obtain ⟨size, data, rfl, hinput, hwidth, hsize⟩ := takeSized_eq_ok_iff.1 h
          obtain ⟨low, high, rfl⟩ := List.length_eq_two.1 hwidth
          subst hlead
          exact ⟨low :: high :: data, .pushData2 hsize, hinput⟩
        · rename_i hlead₂
          cases h
          refine ⟨[], .opcode ?_, rfl⟩
          have h₁ : lead.toNat ≠ 0x4c := fun h => hlead₁ (UInt8.toNat_inj.1 h)
          have h₂ : lead.toNat ≠ 0x4d := fun h => hlead₂ (UInt8.toNat_inj.1 h)
          rw [UInt8.le_iff_toNat_le] at hdirect
          simp only [maxDirectPush, UInt8.reduceToNat] at hdirect
          omega
  · rintro ⟨tail, hword, rfl⟩
    cases hword with
    | direct hleast hmost hsize =>
      rw [decodeCommand_direct hleast hmost]
      exact takePush_eq_ok_iff.2 ⟨tail, rfl, rfl, hsize⟩
    | @pushData1 size data hsize =>
      exact takeSized_eq_ok_iff.2 ⟨[size], data, rfl, rfl, rfl, hsize⟩
    | @pushData2 low high data hsize =>
      exact takeSized_eq_ok_iff.2 ⟨[low, high], data, rfl, rfl, rfl, hsize⟩
    | opcode hbyte => exact decodeCommand_opcode hbyte

theorem missing_of_decodeCommand (h : decodeCommand lead input = .error missing) : 0 < missing := by
  unfold decodeCommand at h
  split at h
  · exact missing_of_takePush h
  · split at h
    · exact missing_of_takeSized h
    · split at h
      · exact missing_of_takeSized h
      · cases h

/-- Where an input starts with a word, it starts with no other, and the word stands for one command. -/
theorem IsWord.unique {command' : Command} {word' rest' : Bytes} (h : IsWord command word)
    (h' : IsWord command' word') (hinput : word ++ rest = word' ++ rest') :
    command = command' ∧ word = word' := by
  obtain ⟨lead, tail, rfl⟩ := List.exists_cons_of_ne_nil h.ne_nil
  obtain ⟨lead', tail', rfl⟩ := List.exists_cons_of_ne_nil h'.ne_nil
  simp only [List.cons_append, List.cons.injEq] at hinput
  obtain ⟨rfl, hinput⟩ := hinput
  have hread : decodeCommand lead (tail ++ rest) = .ok (command, rest) :=
    decodeCommand_eq_ok_iff.2 ⟨tail, h, rfl⟩
  rw [decodeCommand_eq_ok_iff.2 ⟨tail', h', hinput⟩] at hread
  simp only [Except.ok.injEq, Prod.mk.injEq] at hread
  obtain ⟨rfl, rfl⟩ := hread
  exact ⟨rfl, by rw [List.append_cancel_right hinput]⟩

end Words

/-! ## Bodies -/

section Bodies

variable {body : Bytes} {words : List Bytes} {command : Command} {script : Script}

theorem isSplit_nil_iff :
    IsSplit body [] words ↔ words = [] ∧ body = [] := by
  unfold IsSplit
  rw [List.forall₂_nil_left_iff]
  constructor
  · rintro ⟨rfl, rfl⟩
    exact ⟨rfl, rfl⟩
  · rintro ⟨rfl, rfl⟩
    exact ⟨rfl, rfl⟩

theorem isSplit_cons_iff :
    IsSplit body (command :: script) words ↔
      ∃ word others left, IsWord command word ∧ IsSplit left script others ∧
        words = word :: others ∧ body = word ++ left := by
  unfold IsSplit
  rw [List.forall₂_cons_left_iff]
  constructor
  · rintro ⟨⟨word, others, hword, hothers, rfl⟩, rfl⟩
    exact ⟨word, others, others.flatten, hword, ⟨hothers, rfl⟩, rfl, rfl⟩
  · rintro ⟨word, others, left, hword, ⟨hothers, rfl⟩, rfl, rfl⟩
    exact ⟨⟨word, others, hword, hothers, rfl⟩, rfl⟩

/-- A body can be divided into words in one way only. -/
theorem IsSplit.unique {script' : Script} {words' : List Bytes} (h : IsSplit body script words)
    (h' : IsSplit body script' words') : script = script' ∧ words = words' := by
  obtain ⟨hwords, hflat⟩ := h
  induction hwords generalizing body script' words' with
  | nil =>
    subst hflat
    cases h'.1 with
    | nil => exact ⟨rfl, rfl⟩
    | cons hword' => exact absurd (List.append_eq_nil_iff.1 h'.2).1 hword'.ne_nil
  | @cons command word script words hword hwords ih =>
    subst hflat
    cases script' with
    | nil =>
      have hnil := (isSplit_nil_iff.1 h').2
      exact absurd (List.append_eq_nil_iff.1 hnil).1 hword.ne_nil
    | cons command' script' =>
      obtain ⟨word', others, left, hword', hothers, rfl, hbody⟩ := isSplit_cons_iff.1 h'
      rw [List.flatten_cons] at hbody
      obtain ⟨rfl, rfl⟩ := hword.unique hword' hbody
      have hleft := List.append_cancel_left hbody
      obtain ⟨rfl, rfl⟩ := ih hothers hleft
      exact ⟨rfl, rfl⟩

end Bodies

/-! ## Going through a body -/

namespace Cursor

variable {cursor after : Cursor} {command : Command} {script : Script} {body : Bytes}

theorem next_eq_ok_iff :
    cursor.next = some (.ok command, after) ↔
      ∃ word, IsWord command word ∧ cursor.rest = word ++ after.rest ∧
        after.declared = cursor.declared := by
  obtain ⟨declared, rest⟩ := cursor
  obtain ⟨declared', rest'⟩ := after
  cases rest with
  | nil =>
    refine ⟨nofun, ?_⟩
    rintro ⟨word, hword, hrest, -⟩
    exact absurd (List.append_eq_nil_iff.1 hrest.symm).1 hword.ne_nil
  | cons lead input =>
    simp only [next]
    constructor
    · intro h
      cases hread : decodeCommand lead input with
      | error missing => simp [hread] at h
      | ok taken =>
        rw [hread] at h
        cases h
        obtain ⟨tail, hword, rfl⟩ := decodeCommand_eq_ok_iff.1 hread
        exact ⟨_, hword, rfl, rfl⟩
    · rintro ⟨word, hword, hrest, rfl⟩
      obtain ⟨lead', tail, rfl⟩ := List.exists_cons_of_ne_nil hword.ne_nil
      simp only [List.cons_append, List.cons.injEq] at hrest
      obtain ⟨rfl, hrest⟩ := hrest
      rw [decodeCommand_eq_ok_iff.2 ⟨tail, hword, hrest⟩]

theorem next_eq_none_iff : cursor.next = none ↔ cursor.rest = [] := by
  obtain ⟨declared, rest⟩ := cursor
  cases rest with
  | nil => exact ⟨fun _ => rfl, fun _ => rfl⟩
  | cons lead input =>
    simp only [next]
    split <;> simp

/-- The next bytes are no word if they are too few, whatever follows. -/
theorem next_eq_error {error : DecodeError} (h : cursor.next = some (.error error, after)) :
    (∃ needed, cursor.declared < needed ∧ error = .overrun cursor.declared needed) ∧
      after.rest = [] ∧ after.declared = cursor.declared := by
  obtain ⟨declared, rest⟩ := cursor
  cases rest with
  | nil => cases h
  | cons lead input =>
    simp only [next] at h
    cases hread : decodeCommand lead input with
    | ok taken => simp [hread] at h
    | error missing =>
      rw [hread] at h
      cases h
      have hmissing := missing_of_decodeCommand hread
      exact ⟨⟨_, Nat.lt_add_of_pos_right hmissing, rfl⟩, rfl, rfl⟩

theorem next_of_isSplit_nil {words : List Bytes} (h : IsSplit cursor.rest [] words) :
    cursor.next = none :=
  next_eq_none_iff.2 (isSplit_nil_iff.1 h).2

theorem next_of_isSplit_cons {words : List Bytes}
    (h : IsSplit cursor.rest (command :: script) words) :
    ∃ left others, cursor.next = some (.ok command, ⟨cursor.declared, left⟩) ∧
      IsSplit left script others := by
  obtain ⟨word, others, left, hword, hothers, -, hrest⟩ := isSplit_cons_iff.1 h
  exact ⟨left, others, next_eq_ok_iff.2 ⟨word, hword, hrest, rfl⟩, hothers⟩

/-- The commands from a place on are those of the words from there on. -/
theorem commands_eq_ok_iff :
    cursor.commands = .ok script ↔ ∃ words, IsSplit cursor.rest script words := by
  fun_induction Cursor.commands cursor generalizing script with
  | case1 cursor hnext =>
    constructor
    · intro h
      cases h
      exact ⟨[], isSplit_nil_iff.2 ⟨rfl, next_eq_none_iff.1 hnext⟩⟩
    · rintro ⟨words, hsplit⟩
      cases script with
      | nil => rfl
      | cons command script =>
        obtain ⟨left, others, hok, -⟩ := next_of_isSplit_cons hsplit
        rw [hnext] at hok
        cases hok
  | case2 cursor error after hnext =>
    refine ⟨nofun, ?_⟩
    rintro ⟨words, hsplit⟩
    cases script with
    | nil =>
      rw [next_of_isSplit_nil hsplit] at hnext
      cases hnext
    | cons command script =>
      obtain ⟨left, others, hok, -⟩ := next_of_isSplit_cons hsplit
      rw [hnext] at hok
      cases hok
  | case3 cursor command after hnext ih =>
    constructor
    · intro h
      cases hmore : after.commands with
      | error error =>
        rw [hmore] at h
        cases h
      | ok others =>
        rw [hmore] at h
        cases h
        obtain ⟨word, hword, hrest, -⟩ := next_eq_ok_iff.1 hnext
        obtain ⟨words, hsplit⟩ := ih.1 hmore
        exact ⟨word :: words, isSplit_cons_iff.2 ⟨word, words, _, hword, hsplit, rfl, hrest⟩⟩
    · rintro ⟨words, hsplit⟩
      cases script with
      | nil =>
        rw [next_of_isSplit_nil hsplit] at hnext
        cases hnext
      | cons command' script =>
        obtain ⟨left, others, hok, hothers⟩ := next_of_isSplit_cons hsplit
        rw [hnext] at hok
        cases hok
        rw [ih.2 ⟨others, hothers⟩]
        rfl

/-- The place after a call of `next`. At the end it stays the same. -/
def advance (cursor : Cursor) : Cursor :=
  match cursor.next with
  | none => cursor
  | some (_, after) => after

/-- Calls of `next` lead from the start of the body to the place. -/
def IsReached (body : Bytes) (cursor : Cursor) : Prop :=
  ∃ calls, advance^[calls] (start body) = cursor

/-- The place is within the body: what is left there is the end of the body. -/
structure IsWithin (body : Bytes) (cursor : Cursor) : Prop where
  declared : cursor.declared = body.length
  suffix : cursor.rest <:+ body

theorem isWithin_start (body : Bytes) : (start body).IsWithin body := ⟨rfl, List.suffix_rfl⟩

theorem IsWithin.next {item : Except DecodeError Command} (h : cursor.IsWithin body)
    (hnext : cursor.next = some (item, after)) : after.IsWithin body := by
  cases item with
  | error error =>
    obtain ⟨-, hrest, hdeclared⟩ := next_eq_error hnext
    refine ⟨hdeclared.trans h.declared, ?_⟩
    rw [hrest]
    exact List.nil_suffix
  | ok command =>
    obtain ⟨word, -, hrest, hdeclared⟩ := next_eq_ok_iff.1 hnext
    exact ⟨hdeclared.trans h.declared, .trans ⟨word, hrest.symm⟩ h.suffix⟩

theorem IsWithin.advance (h : cursor.IsWithin body) : cursor.advance.IsWithin body := by
  unfold Cursor.advance
  split
  · exact h
  · rename_i hnext
    exact h.next hnext

theorem IsReached.isWithin (h : cursor.IsReached body) : cursor.IsWithin body := by
  obtain ⟨calls, rfl⟩ := h
  induction calls with
  | zero => exact isWithin_start body
  | succ calls ih =>
    rw [Function.iterate_succ_apply']
    exact ih.advance

theorem IsWithin.consumed_add (h : cursor.IsWithin body) :
    cursor.consumed + cursor.rest.length = body.length := by
  have hlength := h.suffix.length_le
  simp only [consumed, h.declared]
  omega

theorem IsWithin.drop_consumed (h : cursor.IsWithin body) :
    body.drop cursor.consumed = cursor.rest := by
  obtain ⟨done, rfl⟩ := h.suffix
  have hconsumed := h.consumed_add
  rw [List.length_append, Nat.add_right_cancel_iff] at hconsumed
  rw [hconsumed, List.drop_left]

/-- At the end no more calls lead anywhere. -/
theorem next_of_advance (hrest : cursor.rest = []) (calls : Nat) :
    (Cursor.advance^[calls] cursor).next = none := by
  have hnext : cursor.next = none := next_eq_none_iff.2 hrest
  have hsame : cursor.advance = cursor := by
    unfold Cursor.advance
    rw [hnext]
  rw [Function.iterate_fixed hsame, hnext]

end Cursor

theorem decode_eq_ok_iff {body : Bytes} {script : Script} :
    decode body = .ok script ↔ ∃ words, IsSplit body script words :=
  Cursor.commands_eq_ok_iff

/-- Decoding accepts exactly the bodies that are sequences of words, and a body can be divided into
words in one way only. Going through a body, each command moves the place by the length of its word. A
failure says that more bytes are needed than there are, and nothing comes after it. -/
theorem body_read_word_by_word :
    (∀ body script, decode body = .ok script ↔ ∃ words, IsSplit body script words) ∧
      (∀ body script words script' words', IsSplit body script words →
        IsSplit body script' words' → script = script' ∧ words = words') ∧
      ∀ (body : Bytes) (cursor : Cursor), cursor.IsReached body →
        (cursor.next = none ↔ cursor.consumed = body.length) ∧
        (∀ command after, cursor.next = some (.ok command, after) →
          ∃ word, IsWord command word ∧
            body.drop cursor.consumed = word ++ body.drop after.consumed ∧
            after.consumed = cursor.consumed + word.length) ∧
        ∀ error after, cursor.next = some (.error error, after) →
          (∃ needed, body.length < needed ∧ error = .overrun body.length needed) ∧
            after.consumed = body.length ∧
            ∀ calls, (Cursor.advance^[calls] after).next = none := by
  refine ⟨fun body script => decode_eq_ok_iff,
    fun body script words script' words' h h' => h.unique h', ?_⟩
  intro body cursor hreached
  have hwithin := hreached.isWithin
  have hconsumed := hwithin.consumed_add
  refine ⟨?_, ?_, ?_⟩
  · rw [Cursor.next_eq_none_iff, ← List.length_eq_zero_iff]
    omega
  · intro command after hnext
    obtain ⟨word, hword, hrest, -⟩ := Cursor.next_eq_ok_iff.1 hnext
    have hafter := hwithin.next hnext
    refine ⟨word, hword, ?_, ?_⟩
    · rw [hwithin.drop_consumed, hafter.drop_consumed, hrest]
    · have hmoved := hafter.consumed_add
      rw [hrest, List.length_append] at hconsumed
      omega
  · intro error after hnext
    obtain ⟨⟨needed, hneeded, herror⟩, hrest, -⟩ := Cursor.next_eq_error hnext
    rw [hwithin.declared] at hneeded herror
    have hmoved := (hwithin.next hnext).consumed_add
    rw [hrest, List.length_nil] at hmoved
    exact ⟨⟨needed, hneeded, herror⟩, hmoved, Cursor.next_of_advance hrest⟩

/-- A push of five bytes of which there is one. -/
theorem body_read_word_by_word_overrun :
    let cursor : Cursor := ⟨3, [0x05, 0x01]⟩
    cursor.IsReached [0x76, 0x05, 0x01] ∧
      cursor.next = some (.error (.overrun 3 7), ⟨3, []⟩) ∧
      ∀ calls, (Cursor.advance^[calls] ⟨3, []⟩).next = none := by
  have hreached : Cursor.IsReached [0x76, 0x05, 0x01] ⟨3, [0x05, 0x01]⟩ := ⟨1, rfl⟩
  have hnext : (⟨3, [0x05, 0x01]⟩ : Cursor).next = some (.error (.overrun 3 7), ⟨3, []⟩) := rfl
  exact ⟨hreached, hnext, ((body_read_word_by_word.2.2 _ _ hreached).2.2 _ _ hnext).2.2⟩

end CoinScript.Script
