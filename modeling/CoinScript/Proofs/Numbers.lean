import CoinScript.ScriptNum
import Mathlib.Algebra.Order.Ring.Nat

/-!
# Numbers and their spellings

A number is written with as few bytes as its magnitude and its sign need. It is read back from them, unless
they are more than are allowed. If only minimal spellings are read, these are the spellings that are
written and no others. The main result says so, counts the bytes of a number, and singles out the one
machine word that is never read back.
-/

namespace CoinScript

namespace ScriptNum

/-! ## Single bytes -/

/-- The sign is put into the one bit that a small magnitude leaves free. -/
theorem signed_byte : ∀ byte : UInt8, byte.toNat < 0x80 → ∀ negative : Bool,
    ((byte ||| if negative then 0x80 else 0) &&& 0x80 != 0) = negative ∧
      (byte ||| if negative then 0x80 else 0) &&& 0x7f = byte :=
  forall_byte (by decide +kernel)

theorem byte_of_signed : ∀ byte : UInt8,
    (byte &&& 0x7f ||| if byte &&& 0x80 != 0 then 0x80 else 0) = byte :=
  forall_byte (by decide +kernel)

theorem lowBits_lt : ∀ byte : UInt8, (byte &&& 0x7f).toNat < 0x80 :=
  forall_byte (by decide +kernel)

theorem lowBits_ne_zero_iff : ∀ byte : UInt8, byte &&& 0x7f != 0 ↔ 0 < (byte &&& 0x7f).toNat :=
  forall_byte (by decide +kernel)

theorem highBit_ne_zero_iff : ∀ byte : UInt8, byte &&& 0x80 != 0 ↔ 0x80 ≤ byte.toNat :=
  forall_byte (by decide +kernel)

/-! ## Reading what is written -/

variable {negative : Bool} {magnitude : Nat} {bytes rest : Bytes}

/-- The last byte of what is written. -/
theorem lastByte (negative : Bool) (h : magnitude < 0x80) :
    ((UInt8.ofNat magnitude ||| if negative then 0x80 else 0) &&& 0x80 != 0) = negative ∧
      ((UInt8.ofNat magnitude ||| if negative then 0x80 else 0) &&& 0x7f).toNat = magnitude := by
  have hbyte : (UInt8.ofNat magnitude).toNat = magnitude :=
    UInt8.toNat_ofNat_of_lt' (Nat.lt_trans h (by decide))
  obtain ⟨hsign, hbits⟩ := signed_byte (UInt8.ofNat magnitude) (hbyte.symm ▸ h) negative
  exact ⟨hsign, by rw [hbits, hbyte]⟩

theorem encodeMagnitude_of_lt (negative : Bool) (h : magnitude < 0x80) :
    encodeMagnitude negative magnitude =
      [UInt8.ofNat magnitude ||| if negative then 0x80 else 0] := by
  rw [encodeMagnitude, if_pos h]

theorem encodeMagnitude_of_le (negative : Bool) (h : 0x80 ≤ magnitude) :
    encodeMagnitude negative magnitude =
      UInt8.ofNat magnitude :: encodeMagnitude negative (magnitude / 256) := by
  rw [encodeMagnitude, if_neg (Nat.not_lt.2 h)]

theorem encodeMagnitude_ne_nil : encodeMagnitude negative magnitude ≠ [] := by
  rw [encodeMagnitude]
  split
  · exact List.cons_ne_nil _ _
  · exact List.cons_ne_nil _ _

/-- Only the last byte has a sign; the others are digits. -/
theorem signMagnitude_cons (byte : UInt8) (h : rest ≠ []) :
    signMagnitude (byte :: rest) =
      ((signMagnitude rest).1, byte.toNat + 256 * (signMagnitude rest).2) := by
  cases rest with
  | nil => exact absurd rfl h
  | cons next rest => rfl

theorem signMagnitude_encodeMagnitude (negative : Bool) (magnitude : Nat) :
    signMagnitude (encodeMagnitude negative magnitude) = (negative, magnitude) := by
  fun_induction encodeMagnitude negative magnitude with
  | case1 magnitude hsmall =>
    obtain ⟨hsign, hbits⟩ := lastByte negative hsmall
    rw [signMagnitude, hsign, hbits]
  | case2 magnitude hlarge ih =>
    have hbyte : (UInt8.ofNat magnitude).toNat = magnitude % 256 := UInt8.toNat_ofNat'
    rw [signMagnitude_cons _ encodeMagnitude_ne_nil, ih, hbyte, Nat.mod_add_div]

theorem value_eq (bytes : Bytes) :
    value bytes = if (signMagnitude bytes).1 then -((signMagnitude bytes).2 : Int)
      else (signMagnitude bytes).2 := by
  unfold value
  split <;> rename_i hsigned <;> simp [hsigned]

theorem natAbs_value (bytes : Bytes) : (value bytes).natAbs = (signMagnitude bytes).2 := by
  rw [value_eq]
  split
  · exact Int.natAbs_neg _
  · rfl

/-- A number is read as itself. -/
theorem value_encode (n : Int) : value (encode n) = n := by
  unfold encode
  split
  · rename_i hzero
    exact hzero.symm
  · rw [value_eq, signMagnitude_encodeMagnitude]
    simp only [decide_eq_true_eq]
    split <;> omega

/-! ## Minimal spellings -/

theorem isMinimal_cons (byte : UInt8) (h : 2 ≤ rest.length) :
    isMinimal (byte :: rest) = isMinimal rest := by
  match rest, h with
  | _ :: _ :: _, _ => rfl

theorem two_le_length (h : 0x80 ≤ magnitude) : 2 ≤ (encodeMagnitude negative magnitude).length := by
  rw [encodeMagnitude_of_le negative h, List.length_cons]
  exact Nat.succ_le_succ (List.length_pos_iff.2 encodeMagnitude_ne_nil)

/-- A positive magnitude is written without padding. -/
theorem isMinimal_encodeMagnitude (negative : Bool) (hpos : 0 < magnitude) :
    isMinimal (encodeMagnitude negative magnitude) := by
  fun_induction encodeMagnitude negative magnitude with
  | case1 magnitude hsmall =>
    rw [isMinimal, lowBits_ne_zero_iff, (lastByte negative hsmall).2]
    exact hpos
  | case2 magnitude hlarge ih =>
    by_cases hlast : magnitude / 256 < 0x80
    · have hbyte : (UInt8.ofNat magnitude).toNat = magnitude % 256 := UInt8.toNat_ofNat'
      rw [encodeMagnitude_of_lt negative hlast, isMinimal, Bool.or_eq_true, lowBits_ne_zero_iff,
        highBit_ne_zero_iff, (lastByte negative hlast).2, hbyte]
      omega
    · rw [isMinimal_cons _ (two_le_length (Nat.le_of_not_lt hlast))]
      exact ih (by omega)

/-- A minimal spelling is what is written for the sign and the magnitude that it has. -/
theorem encodeMagnitude_signMagnitude (hmin : isMinimal bytes) (hne : bytes ≠ []) :
    encodeMagnitude (signMagnitude bytes).1 (signMagnitude bytes).2 = bytes := by
  fun_induction isMinimal bytes with
  | case1 => exact absurd rfl hne
  | case2 last => rw [signMagnitude, encodeMagnitude_of_lt _ (lowBits_lt last), UInt8.ofNat_toNat,
      byte_of_signed]
  | case3 before last =>
    rw [Bool.or_eq_true, lowBits_ne_zero_iff, highBit_ne_zero_iff] at hmin
    have hlarge : 0x80 ≤ before.toNat + 256 * (last &&& 0x7f).toNat := by omega
    rw [signMagnitude_cons _ (List.cons_ne_nil _ _), signMagnitude, encodeMagnitude_of_le _ hlarge,
      Bytes.ofNat_digit, Bytes.digit_div, encodeMagnitude_of_lt _ (lowBits_lt last),
      UInt8.ofNat_toNat, byte_of_signed]
  | case4 byte rest hnil hsingle ih =>
    have hrest := ih hmin hnil
    have hlarge : 0x80 ≤ (signMagnitude rest).2 := by
      by_contra hsmall
      rw [encodeMagnitude_of_lt _ (Nat.lt_of_not_le hsmall)] at hrest
      exact hsingle _ hrest.symm
    rw [signMagnitude_cons _ hnil, encodeMagnitude_of_le _ (by simp only; omega), Bytes.ofNat_digit,
      Bytes.digit_div, hrest]

theorem isMinimal_encode (n : Int) : isMinimal (encode n) := by
  unfold encode
  split
  · rfl
  · exact isMinimal_encodeMagnitude _ (by omega)

/-- A minimal spelling is the one that is written. -/
theorem encode_value (h : isMinimal bytes) : encode (value bytes) = bytes := by
  by_cases hne : bytes = []
  · rw [hne]
    rfl
  · have hspelled := encodeMagnitude_signMagnitude h hne
    -- Neither `00` nor `80` is minimal, so there is a magnitude.
    have hpos : (signMagnitude bytes).2 ≠ 0 := by
      intro hzero
      rw [hzero, encodeMagnitude_of_lt _ (by decide)] at hspelled
      rw [← hspelled] at h
      revert h
      cases (signMagnitude bytes).1 <;> decide
    have hsign : decide (value bytes < 0) = (signMagnitude bytes).1 := by
      rw [value_eq]
      cases (signMagnitude bytes).1
      · simp
      · simpa using Nat.pos_of_ne_zero hpos
    have hvalue : value bytes ≠ 0 := by
      rwa [← Int.natAbs_ne_zero, natAbs_value]
    rw [encode, if_neg hvalue, natAbs_value, hsign, hspelled]

/-! ## Sizes of numbers -/

theorem length_encodeMagnitude_le {k : Nat} (negative : Bool) {magnitude : Nat}
    (h : magnitude < 128 * 256 ^ k) : (encodeMagnitude negative magnitude).length ≤ k + 1 := by
  induction k generalizing magnitude with
  | zero =>
    rw [encodeMagnitude, if_pos (by omega)]
    simp
  | succ k ih =>
    rw [encodeMagnitude]
    split
    · simp
    · have hrest : magnitude / 256 < 128 * 256 ^ k := by
        rw [Nat.pow_succ] at h
        omega
      have hlength := ih hrest
      rw [List.length_cons]
      omega

theorem length_encode_le {k : Nat} {n : Int} (h : n.natAbs < 128 * 256 ^ k) :
    (encode n).length ≤ k + 1 := by
  unfold encode
  split
  · exact Nat.zero_le _
  · exact length_encodeMagnitude_le _ h

/-- A number takes no more bytes than it counts. -/
theorem length_encode_le_natAbs (n : Int) : (encode n).length ≤ n.natAbs := by
  cases hn : n.natAbs with
  | zero =>
    rw [Int.natAbs_eq_zero.1 hn]
    exact Nat.zero_le _
  | succ k =>
    apply length_encode_le
    have hpow : k < 256 ^ k := Nat.lt_pow_self (by omega)
    omega

theorem signMagnitude_lt {k : Nat} {bytes : Bytes} (h : bytes.length ≤ k + 1) :
    (signMagnitude bytes).2 < 128 * 256 ^ k := by
  have hpos : 0 < 256 ^ k := Nat.pow_pos (by omega)
  fun_induction signMagnitude bytes generalizing k with
  | case1 =>
    simp only
    omega
  | case2 last =>
    have hlast : (last &&& 0x7f).toNat ≤ 127 := by
      rw [UInt8.toNat_and]
      exact Nat.and_le_right
    simp only
    omega
  | case3 b rest hne negative magnitude hrest ih =>
    have hlength : 0 < rest.length := List.length_pos_iff.2 hne
    rw [List.length_cons] at h
    cases k with
    | zero => omega
    | succ k =>
      have hmagnitude := ih (k := k) (by omega) (Nat.pow_pos (by omega))
      rw [hrest] at hmagnitude
      have hbyte := b.toNat_lt
      rw [Nat.pow_succ]
      simp only at hmagnitude ⊢
      omega

/-- What is read has a magnitude that fits into the bytes that are allowed, with a sign. -/
theorem natAbs_lt_of_decode {minimal : Bool} {maxSize k : Nat} {n : Int}
    (hsize : min maxSize widestSize ≤ k + 1) (h : decode minimal maxSize bytes = .ok n) :
    n.natAbs < 128 * 256 ^ k := by
  have hpos : 0 < 256 ^ k := Nat.pow_pos (by omega)
  rcases decode_eq_ok_iff.1 h with ⟨-, rfl⟩ | ⟨-, hlength, -, rfl⟩
  · exact Nat.mul_pos (by decide) hpos
  · rw [natAbs_value]
    exact signMagnitude_lt (Nat.le_trans hlength hsize)

/-- What is read as an operand is less than `2 ^ 31`, up to its sign. -/
theorem natAbs_of_decode {minimal : Bool} {element : Bytes} {n : Int}
    (h : decode minimal operandSize element = .ok n) : n.natAbs < 2 ^ 31 :=
  natAbs_lt_of_decode (k := 3) (by decide) h

/-- Each byte has eight bits, and the sign takes one of all bits. -/
theorem two_pow_magnitude (k : Nat) : 2 ^ (8 * (k + 1) - 1) = 128 * 256 ^ k := by
  rw [show 8 * (k + 1) - 1 = 7 + 8 * k by omega, Nat.pow_add, Nat.pow_mul]

/-- Each further byte of a spelling has eight more bits for the magnitude. -/
theorem length_encode_le_iff {size : Nat} {n : Int} (hsize : 1 ≤ size) :
    (encode n).length ≤ size ↔ n.natAbs < 2 ^ (8 * size - 1) := by
  obtain ⟨k, rfl⟩ := Nat.exists_eq_add_of_le' hsize
  rw [two_pow_magnitude]
  refine ⟨fun hlength => ?_, length_encode_le⟩
  rw [← congrArg Int.natAbs (value_encode n), natAbs_value]
  exact signMagnitude_lt hlength

/-! ## Reading within limits -/

/-- A number is read back, also where only minimal spellings are allowed, unless it is too long. -/
theorem decode_encode (minimal : Bool) (maxSize : Nat) (n : Int) :
    decode minimal maxSize (encode n) =
      if (encode n).length ≤ min maxSize widestSize then .ok n
      else .error (.overflow (min maxSize widestSize) (encode n).length) := by
  split
  · rename_i hlength
    rw [decode_eq_ok_iff]
    by_cases hnil : encode n = []
    · exact .inl ⟨hnil, by rw [← value_encode n, hnil]; rfl⟩
    · exact .inr ⟨hnil, hlength, fun _ => isMinimal_encode n, value_encode n⟩
  · rename_i hlength
    have hne : encode n ≠ [] := by
      rintro hnil
      rw [hnil] at hlength
      exact hlength (Nat.zero_le _)
    simp only [decode, List.isEmpty_iff, hne, if_false]
    rw [if_pos (Nat.lt_of_not_le hlength)]

/-- Where only minimal spellings are allowed, what is read is spelled as the number is written. -/
theorem encode_of_decode {maxSize : Nat} {n : Int} (h : decode true maxSize bytes = .ok n) :
    encode n = bytes := by
  rcases decode_eq_ok_iff.1 h with ⟨rfl, rfl⟩ | ⟨-, -, hmin, rfl⟩
  · rfl
  · exact encode_value (hmin rfl)

/-- Only one machine word needs more bytes than words have, and that is one more. -/
theorem length_encode_eq_nine_iff (word : Int64) :
    (encode word.toInt).length = 9 ↔ word = Int64.minValue := by
  have hle := word.le_toInt
  have hlt := word.toInt_lt
  have hnine : (encode word.toInt).length ≤ 9 := by
    rw [length_encode_le_iff (by decide)]
    omega
  have height : ¬(encode word.toInt).length ≤ 8 ↔ word.toInt = -2 ^ 63 := by
    rw [length_encode_le_iff (by decide)]
    omega
  rw [← Int64.toInt_inj, Int64.toInt_minValue, ← height]
  omega

/-- Writing and reading numbers are inverse to each other. A number that is written is read back, whether or
not only minimal spellings are allowed, unless it is longer than is allowed, and then it is an overflow. It
takes `size` bytes or fewer exactly if its magnitude leaves one bit of them for the sign; so among machine
words the least one, and only that, takes nine bytes, and it is never read back. Where only minimal
spellings are allowed, what is read as a number is what is written for it, and it is a machine word. -/
theorem numbers_read_back :
    (∀ (n : Int) (minimal : Bool) (maxSize : Nat), decode minimal maxSize (encode n) =
      if (encode n).length ≤ min maxSize 8 then .ok n
      else .error (.overflow (min maxSize 8) (encode n).length)) ∧
    (∀ (n : Int) (size : Nat), 1 ≤ size →
      ((encode n).length ≤ size ↔ n.natAbs < 2 ^ (8 * size - 1))) ∧
    (∀ word : Int64, (encode word.toInt).length = 9 ↔ word = Int64.minValue) ∧
    (∀ (minimal : Bool) (maxSize : Nat), decode minimal maxSize (encode Int64.minValue.toInt) =
      .error (.overflow (min maxSize 8) 9)) ∧
    ∀ (bytes : Bytes) (maxSize : Nat) (n : Int), decode true maxSize bytes = .ok n →
      encode n = bytes ∧ ∃ word : Int64, word.toInt = n := by
  have hleast := (length_encode_eq_nine_iff Int64.minValue).2 rfl
  refine ⟨fun n minimal maxSize => decode_encode minimal maxSize n, fun n size => length_encode_le_iff,
    length_encode_eq_nine_iff, fun minimal maxSize => ?_, fun bytes maxSize n h => ?_⟩
  · have htoo : ¬9 ≤ min maxSize 8 := by omega
    rw [decode_encode, hleast]
    exact if_neg htoo
  · have hlt : n.natAbs < 2 ^ 63 := natAbs_lt_of_decode (k := 7) (Nat.min_le_right _ _) h
    exact ⟨encode_of_decode h, Int64.ofInt n, Int64.toInt_ofInt_of_le (by omega) (by omega)⟩

/-- A number whose magnitude fills its bytes, read within a limit that leaves no room for the sign and
within one that does. -/
theorem numbers_read_back_sign_byte :
    (encode (-0x8000)).length ≤ 3 ∧ encode (-0x8000) = [0x00, 0x80, 0x80] ∧
      decode true 3 (encode (-0x8000)) = .ok (-0x8000) ∧
      decode false 2 (encode (-0x8000)) = .error (.overflow 2 3) := by
  obtain ⟨hread, hlength, -, -, hspelled⟩ := numbers_read_back
  have hbytes : encode (-0x8000) = [0x00, 0x80, 0x80] := (hspelled [0x00, 0x80, 0x80] 3 _ rfl).1
  refine ⟨(hlength (-0x8000) 3 (by decide)).2 (by decide), hbytes, ?_, ?_⟩
  · rw [hread, hbytes]
    rfl
  · rw [hread, hbytes]
    rfl

end ScriptNum

end CoinScript
