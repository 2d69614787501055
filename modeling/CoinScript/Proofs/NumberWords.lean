import CoinScript.Proofs.LengthPrefix
import CoinScript.Proofs.Numbers
import Mathlib.Algebra.BigOperators.Fin
import Mathlib.Tactic.Ring

/-!
# Numbers in machine words

A number of at most eight bytes can be read with words alone: each byte is shifted to its place, the places
are put together bit by bit, and if there is a sign, its bit is masked out and the word is negated. Seven
bytes leave room, but the eighth one reaches the top bit of the word, which is then negative itself. The
main result says that nothing is lost on the way and that the word is the number which the bytes denote: the
sum of their digits, with the sign of the last one.
-/

namespace CoinScript

theorem Bytes.toNatLE_append (bytes : Bytes) (last : UInt8) :
    toNatLE (bytes ++ [last]) = toNatLE bytes + last.toNat * 256 ^ bytes.length := by
  induction bytes with
  | nil => simp
  | cons byte bytes ih =>
    rw [List.cons_append, toNatLE_cons, toNatLE_cons, ih, List.length_cons, Nat.pow_succ]
    ring

namespace ScriptNum

/-! ## Digits and sign -/

/-- Whether the top bit of the last byte is set. -/
def hasSign (bytes : Bytes) : Bool := bytes.getLast?.any (· &&& 0x80 != 0)

/-- The sum of the bytes, each at its place, without the top bit of the last one. -/
def magnitude (bytes : Bytes) : Nat :=
  ∑ i : Fin bytes.length,
    (if i + 1 = bytes.length then bytes[i] &&& 0x7f else bytes[i]).toNat * 256 ^ i.val

theorem hasSign_eq (bytes : Bytes) : hasSign bytes = (signMagnitude bytes).1 := by
  fun_induction signMagnitude bytes with
  | case1 => rfl
  | case2 last => rfl
  | case3 byte rest hne negative magnitude hrest ih =>
    rw [hrest] at ih
    rw [← ih, hasSign, hasSign, List.getLast?_cons_of_ne_nil hne]

theorem magnitude_cons (byte : UInt8) {rest : Bytes} (h : rest ≠ []) :
    magnitude (byte :: rest) = byte.toNat + 256 * magnitude rest := by
  have hne : rest.length ≠ 0 := mt List.length_eq_zero_iff.1 h
  have hsplit := Fin.sum_univ_succ fun i : Fin (rest.length + 1) =>
    (if i + 1 = (byte :: rest).length then (byte :: rest)[i] &&& 0x7f else (byte :: rest)[i]).toNat *
      256 ^ i.val
  rw [magnitude, magnitude, Finset.mul_sum]
  refine hsplit.trans ?_
  congr 1
  · simp [hne]
  · refine Finset.sum_congr rfl fun i _ => ?_
    simp only [Fin.val_succ, List.length_cons, Nat.add_right_cancel_iff, Fin.getElem_fin,
      List.getElem_cons_succ, Nat.pow_succ]
    ring

theorem magnitude_eq (bytes : Bytes) : magnitude bytes = (signMagnitude bytes).2 := by
  fun_induction signMagnitude bytes with
  | case1 => rfl
  | case2 last => simp [magnitude]
  | case3 byte rest hne negative magnitude hrest ih =>
    rw [hrest] at ih
    rw [magnitude_cons byte hne, ih]

/-- A number is its magnitude with its sign. -/
theorem value_eq_magnitude (bytes : Bytes) :
    value bytes = if hasSign bytes then -(magnitude bytes : Int) else magnitude bytes := by
  rw [value_eq, hasSign_eq, magnitude_eq]

theorem natAbs_value_eq (bytes : Bytes) : (value bytes).natAbs = magnitude bytes := by
  rw [natAbs_value, magnitude_eq]

/-- The magnitude leaves the top bit of the last byte to the sign. -/
theorem magnitude_lt {bytes : Bytes} (hne : bytes ≠ []) :
    magnitude bytes < 2 ^ (8 * bytes.length - 1) := by
  obtain ⟨k, hk⟩ := Nat.exists_eq_add_of_le' (List.length_pos_iff.2 hne)
  rw [magnitude_eq, hk, two_pow_magnitude]
  exact signMagnitude_lt (Nat.le_of_eq hk)

theorem byte_eq_signed : ∀ byte : UInt8,
    byte.toNat = (if byte &&& 0x80 != 0 then 2 ^ 7 else 0) + (byte &&& 0x7f).toNat :=
  forall_byte (by decide +kernel)

/-- As a number without a sign, a number with one has its sign as the top bit. -/
theorem toNatLE_eq (bytes : Bytes) :
    bytes.toNatLE = (if hasSign bytes then 2 ^ (8 * bytes.length - 1) else 0) + magnitude bytes := by
  rw [hasSign_eq, magnitude_eq]
  fun_induction signMagnitude bytes with
  | case1 => rfl
  | case2 last => exact byte_eq_signed last
  | case3 byte rest hne negative magnitude hrest ih =>
    have hpos : 0 < rest.length := List.length_pos_iff.2 hne
    have hpow : 2 ^ (8 * (byte :: rest).length - 1) = 256 * 2 ^ (8 * rest.length - 1) := by
      rw [List.length_cons, show 8 * (rest.length + 1) - 1 = 8 + (8 * rest.length - 1) by omega,
        Nat.pow_add]
    rw [hrest] at ih
    rw [Bytes.toNatLE_cons, ih, hpow]
    simp only
    split <;> omega

/-! ## Bytes in a word -/

/-- A byte shifted to its place in a word. -/
def placed (byte : UInt8) (i : Nat) : Int64 := Int64.ofNat byte.toNat <<< Int64.ofNat (8 * i)

/-- The bytes put together in a word, the lowest one first. -/
def gather (bytes : Bytes) : Int64 :=
  bytes.zipIdx.foldl (fun word (byte, i) => word ||| placed byte i) 0

/-- The place of the sign in a word for so many bytes. -/
def signBit (size : Nat) : Int64 := 0x80 <<< Int64.ofNat (8 * (size - 1))

/-- The word for a number, computed with words. -/
def wordValue (bytes : Bytes) : Int64 :=
  if hasSign bytes then -(gather bytes &&& ~~~signBit bytes.length) else gather bytes

/-- A byte is shifted to one of the first eight places without losing a bit. -/
theorem toNat_shiftLeft {n i : Nat} (hn : n < 256) (hi : i < 8) :
    (Int64.ofNat n <<< Int64.ofNat (8 * i)).toBitVec.toNat = n * 2 ^ (8 * i) := by
  have hamount : ∀ i < 8, (Int64.ofNat (8 * i)).toBitVec.smod 64 = BitVec.ofNat 64 (8 * i) := by
    decide
  have hbound : n * 2 ^ (8 * i) < 2 ^ 64 := by
    have hle : 2 ^ (8 * i) ≤ 2 ^ 56 := Nat.pow_le_pow_right (by decide) (by omega)
    calc n * 2 ^ (8 * i) ≤ 255 * 2 ^ 56 := Nat.mul_le_mul (by omega) hle
      _ < 2 ^ 64 := by decide
  have hshift : (BitVec.ofNat 64 (8 * i)).toNat = 8 * i := by
    rw [BitVec.toNat_ofNat]
    omega
  have hbyte : (BitVec.ofNat 64 n).toNat = n := by
    rw [BitVec.toNat_ofNat]
    omega
  rw [Int64.toBitVec_shiftLeft, hamount i hi, BitVec.shiftLeft_eq', hshift, BitVec.toNat_shiftLeft,
    Int64.toBitVec_ofNat', hbyte, Nat.shiftLeft_eq, Nat.mod_eq_of_lt hbound]

theorem toNat_placed (byte : UInt8) {i : Nat} (hi : i < 8) :
    (placed byte i).toBitVec.toNat = byte.toNat * 256 ^ i := by
  rw [placed, toNat_shiftLeft byte.toNat_lt hi, Nat.pow_mul]

theorem toNat_signBit {size : Nat} (hpos : 1 ≤ size) (hsize : size ≤ 8) :
    (signBit size).toBitVec.toNat = 2 ^ (8 * size - 1) := by
  have hshift : (signBit size).toBitVec.toNat = 0x80 * 2 ^ (8 * (size - 1)) :=
    toNat_shiftLeft (by decide) (by omega)
  rw [hshift, show 8 * size - 1 = 7 + 8 * (size - 1) by omega, Nat.pow_add]

theorem gather_append (bytes : Bytes) (last : UInt8) :
    gather (bytes ++ [last]) = gather bytes ||| placed last bytes.length := by
  rw [gather, List.zipIdx_append, List.foldl_append, Nat.zero_add]
  rfl

/-- The bytes of a word do not overlap, so putting one more in adds it. -/
theorem toNat_gather {bytes : Bytes} (hsize : bytes.length ≤ 8) :
    (gather bytes).toBitVec.toNat = Bytes.toNatLE bytes := by
  induction bytes using List.reverseRecOn with
  | nil => rfl
  | append_singleton bytes last ih =>
    rw [List.length_append, List.length_singleton] at hsize
    have hlow : Bytes.toNatLE bytes < 2 ^ (8 * bytes.length) := by
      rw [Nat.pow_mul]
      exact Bytes.toNatLE_lt bytes
    have hsum := Nat.two_pow_add_eq_or_of_lt hlow last.toNat
    have hpow : 256 ^ bytes.length = 2 ^ (8 * bytes.length) := (Nat.pow_mul 2 8 _).symm
    rw [gather_append, Int64.toBitVec_or, BitVec.toNat_or, ih (by omega), toNat_placed last (by omega),
      Bytes.toNatLE_append, hpow, Nat.mul_comm last.toNat, Nat.or_comm, ← hsum, Nat.add_comm]

/-! ## The sign of a word -/

/-- Masking the top bit out of a number takes it off. -/
theorem toNat_and_not {word bit : Int64} {k n : Nat} (hn : n < 2 ^ k)
    (hword : word.toBitVec.toNat = 2 ^ k + n) (hbit : bit.toBitVec.toNat = 2 ^ k) :
    (word &&& ~~~bit).toBitVec.toNat = n := by
  have hor : word.toBitVec.toNat = 2 ^ k ||| n := by
    simpa [hword] using Nat.two_pow_add_eq_or_of_lt hn 1
  have hlt : n < 2 ^ 64 := by
    have hbound := word.toBitVec.isLt
    omega
  apply Nat.eq_of_testBit_eq
  intro i
  rw [Int64.toBitVec_and, Int64.toBitVec_not, BitVec.testBit_toNat, BitVec.getLsbD_and,
    BitVec.getLsbD_not, ← BitVec.testBit_toNat, ← BitVec.testBit_toNat, hor, hbit, Nat.testBit_or]
  by_cases hi : i < 64
  · by_cases hk : i = k
    · subst hk
      rw [Nat.testBit_lt_two_pow hn]
      simp
    · rw [Nat.testBit_two_pow_of_ne (Ne.symm hk)]
      simp [hi]
  · -- Beyond the word there is no bit of the number either.
    have hhigh : n < 2 ^ i := Nat.lt_of_lt_of_le hlt (Nat.pow_le_pow_right (by decide) (by omega))
    rw [Nat.testBit_lt_two_pow hhigh]
    simp [hi]

/-- A word whose top bit is clear is the number of its bits. -/
theorem toInt_of_toNat {word : Int64} {n : Nat} (hword : word.toBitVec.toNat = n) (hn : n < 2 ^ 63) :
    word.toInt = n := by
  rw [← Int64.toInt_toBitVec, BitVec.toInt_eq_toNat_of_lt (by omega), hword]

variable {bytes : Bytes}

theorem magnitude_lt_word (hsize : bytes.length ≤ 8) : magnitude bytes < 2 ^ 63 := by
  by_cases hne : bytes = []
  · rw [hne]
    decide
  · exact Nat.lt_of_lt_of_le (magnitude_lt hne) (Nat.pow_le_pow_right (by decide) (by omega))

theorem toInt_masked (hsize : bytes.length ≤ 8) (hsign : hasSign bytes) :
    (gather bytes &&& ~~~signBit bytes.length).toInt = magnitude bytes := by
  have hne : bytes ≠ [] := by
    rintro rfl
    cases hsign
  have hword : (gather bytes).toBitVec.toNat = 2 ^ (8 * bytes.length - 1) + magnitude bytes := by
    rw [toNat_gather hsize, toNatLE_eq, if_pos hsign]
  have hbit := toNat_signBit (List.length_pos_iff.2 hne) hsize
  exact toInt_of_toNat (toNat_and_not (magnitude_lt hne) hword hbit) (magnitude_lt_word hsize)

/-- The word for a number is that number. -/
theorem toInt_wordValue (hsize : bytes.length ≤ 8) : (wordValue bytes).toInt = value bytes := by
  have hlt := magnitude_lt_word hsize
  rw [value_eq_magnitude, wordValue]
  split
  · rename_i hsign
    rw [Int64.toInt_neg, toInt_masked hsize hsign]
    apply Int.bmod_eq_of_le <;> omega
  · rename_i hsign
    have hword : (gather bytes).toBitVec.toNat = magnitude bytes := by
      rw [toNat_gather hsize, toNatLE_eq, if_neg hsign, Nat.zero_add]
    exact toInt_of_toNat hword hlt

/-- Nothing is lost where a number is read with words. Each shift is by less than the size of a word and
moves no bit out of it, the bytes that have been put in add up, the mask is the bit of the sign alone, and
the word that is negated is not the least one. -/
structure IsLossless (bytes : Bytes) : Prop where
  shifted : ∀ i (h : i < bytes.length), 8 * i < 64 ∧
    (placed bytes[i] i).toBitVec.toNat = bytes[i].toNat * 256 ^ i
  gathered : ∀ count, (gather (bytes.take count)).toBitVec.toNat = Bytes.toNatLE (bytes.take count)
  mask : bytes ≠ [] → 8 * (bytes.length - 1) < 64 ∧
    (signBit bytes.length).toBitVec.toNat = 2 ^ (8 * bytes.length - 1)
  masked : hasSign bytes → (gather bytes &&& ~~~signBit bytes.length).toInt = magnitude bytes
  negated : hasSign bytes → gather bytes &&& ~~~signBit bytes.length ≠ Int64.minValue

theorem isLossless (hsize : bytes.length ≤ 8) : IsLossless bytes where
  shifted i h := ⟨by omega, toNat_placed bytes[i] (by omega)⟩
  gathered count := by
    apply toNat_gather
    rw [List.length_take]
    omega
  mask hne := ⟨by omega, toNat_signBit (List.length_pos_iff.2 hne) hsize⟩
  masked := toInt_masked hsize
  negated hsign hleast := by
    have hmasked := toInt_masked hsize hsign
    rw [hleast, Int64.toInt_minValue] at hmasked
    omega

/-- Bytes that are not too many are read as the number that they denote, unless that is refused because
another spelling is shorter. -/
theorem decode_of_length {maxSize : Nat} (minimal : Bool) (hsize : bytes.length ≤ min maxSize widestSize) :
    decode minimal maxSize bytes =
      if minimal && !isMinimal bytes then .error (.nonMinimal bytes) else .ok (value bytes) := by
  by_cases hnil : bytes = []
  · rw [hnil]
    cases minimal <;> rfl
  · simp only [decode, List.isEmpty_iff, hnil, if_false, if_neg (Nat.not_lt.2 hsize)]

/-- Bytes of which there are no more than are allowed, and no more than eight, are read as their magnitude
with their sign; that is zero if there are none, and otherwise it fits into the bits that the sign leaves.
Computed with words it is the same, and nothing is lost on the way. Where only minimal spellings are
allowed, either this number is read or the spelling is reported. -/
theorem parsed_number_exact {maxSize : Nat} (hsize : bytes.length ≤ min maxSize 8) :
    value bytes = (if hasSign bytes then -(magnitude bytes : Int) else magnitude bytes) ∧
      decode false maxSize bytes = .ok (value bytes) ∧
      (bytes = [] → value bytes = 0) ∧
      (bytes ≠ [] → (value bytes).natAbs ≤ 2 ^ (8 * bytes.length - 1) - 1) ∧
      IsLossless bytes ∧ (wordValue bytes).toInt = value bytes ∧
      decode true maxSize bytes =
        if isMinimal bytes then .ok (value bytes) else .error (.nonMinimal bytes) := by
  have hwords : bytes.length ≤ 8 := Nat.le_trans hsize (Nat.min_le_right _ _)
  refine ⟨value_eq_magnitude bytes, decode_of_length false hsize, ?_, fun hne => ?_, isLossless hwords,
    toInt_wordValue hwords, ?_⟩
  · rintro rfl
    rfl
  · rw [natAbs_value_eq]
    exact Nat.le_sub_one_of_lt (magnitude_lt hne)
  · rw [decode_of_length true hsize]
    cases isMinimal bytes <;> rfl

/-- Eight bytes with all bits set: as a word they are -1, and as a number they are the least one that is
read. Below it, a sign in a byte of its own is refused where only minimal spellings are allowed. -/
theorem parsed_number_exact_all_bits :
    gather (List.replicate 8 0xff) = -1 ∧
      decode false 8 (List.replicate 8 0xff) = .ok (-(2 ^ 63 - 1)) ∧
      (wordValue (List.replicate 8 0xff)).toInt = -(2 ^ 63 - 1) ∧
      decode true 4 [0x01, 0x80] = .error (.nonMinimal [0x01, 0x80]) := by
  have hsize : (List.replicate 8 0xff : Bytes).length ≤ min 8 8 := by decide
  have hvalue : value (List.replicate 8 0xff) = -(2 ^ 63 - 1) := by decide
  have hpadded : ([0x01, 0x80] : Bytes).length ≤ min 4 8 := by decide
  obtain ⟨-, hread, -, -, -, hword, -⟩ := parsed_number_exact hsize
  obtain ⟨-, -, -, -, -, -, hminimal⟩ := parsed_number_exact hpadded
  exact ⟨by decide, hread.trans (congrArg _ hvalue), hword.trans hvalue, hminimal⟩

end ScriptNum

end CoinScript
