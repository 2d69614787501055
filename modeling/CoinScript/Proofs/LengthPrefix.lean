import CoinScript.CompactSize
import Mathlib.Algebra.Order.Ring.Nat

/-!
# Length prefixes

A number that fits into some bytes is read back from them, least significant byte first. So a length
below `2 ^ 64` is read back from the CompactSize number in front of a body, whatever comes after it. No
other bytes are read as a length: a number is accepted in one spelling only. The main result puts the two
together, with the lengths of spellings, and adds that no spelling is the beginning of another.
-/

namespace CoinScript

namespace Bytes

theorem toNatLE_ofNatLE {width n : Nat} (h : n < 256 ^ width) : toNatLE (ofNatLE width n) = n := by
  induction width generalizing n with
  | zero =>
    have hzero : n = 0 := by simpa using h
    exact hzero.symm
  | succ width ih =>
    have hquotient : n / 256 < 256 ^ width := by
      rw [Nat.pow_succ] at h
      exact Nat.div_lt_of_lt_mul (by rwa [Nat.mul_comm])
    have hbyte : (UInt8.ofNat n).toNat = n % 256 := UInt8.toNat_ofNat'
    rw [ofNatLE, toNatLE_cons, ih hquotient, hbyte]
    exact Nat.mod_add_div n 256

theorem toNatLE_lt (bytes : Bytes) : toNatLE bytes < 256 ^ bytes.length := by
  induction bytes with
  | nil => exact Nat.one_pos
  | cons byte rest ih =>
    have hbyte := byte.toNat_lt
    rw [toNatLE_cons, List.length_cons, Nat.pow_succ]
    omega

/-- Bytes are the spelling of the number that they denote. -/
theorem ofNatLE_toNatLE (bytes : Bytes) : ofNatLE bytes.length (toNatLE bytes) = bytes := by
  induction bytes with
  | nil => rfl
  | cons byte rest ih => rw [List.length_cons, toNatLE_cons, ofNatLE, ofNat_digit, digit_div, ih]

end Bytes

namespace CompactSize

theorem readWide_ofNatLE {width least n : Nat} {tail : Bytes} (hleast : least ≤ n)
    (hfits : n < 256 ^ width) : readWide width least (Bytes.ofNatLE width n ++ tail) = .ok (n, tail) := by
  have hlength : (Bytes.ofNatLE width n).length = width := Bytes.length_ofNatLE width n
  rw [readWide, if_neg (by simp)]
  simp only [List.take_left' hlength, List.drop_left' hlength, Bytes.toNatLE_ofNatLE hfits]
  rw [if_neg (Nat.not_lt.2 hleast)]

/-- A byte that is no tag is the number itself. -/
theorem read_of_small {byte : UInt8} (h : byte.toNat < 0xfd) (tail : Bytes) :
    read (byte :: tail) = .ok (byte.toNat, tail) := by
  have hne : ∀ tag : UInt8, 0xfd ≤ tag.toNat → byte ≠ tag := by
    rintro tag htag rfl
    omega
  rw [read, if_neg (hne _ (by decide)), if_neg (hne _ (by decide)), if_neg (hne _ (by decide))]

/-- A number of eight bytes is read back from its encoding. -/
theorem read_encode {n : Nat} (h : n < 2 ^ 64) (tail : Bytes) :
    read (encode n ++ tail) = .ok (n, tail) := by
  unfold encode
  split
  · rename_i hsmall
    have hbyte : (UInt8.ofNat n).toNat = n :=
      UInt8.toNat_ofNat_of_lt' (Nat.lt_trans hsmall (by decide))
    rw [List.singleton_append, read_of_small (hbyte.symm ▸ hsmall), hbyte]
  · rename_i hleast
    split
    · rename_i hfits
      rw [List.cons_append, read, if_pos rfl]
      exact readWide_ofNatLE (Nat.le_of_not_lt hleast) hfits
    · rename_i hleast
      split
      · rename_i hfits
        rw [List.cons_append, read, if_neg (by decide), if_pos rfl]
        exact readWide_ofNatLE (Nat.le_of_not_lt hleast) hfits
      · rename_i hleast
        have hfits : n < 256 ^ 8 := by omega
        rw [List.cons_append, read, if_neg (by decide), if_neg (by decide), if_pos rfl]
        exact readWide_ofNatLE (Nat.le_of_not_lt hleast) hfits

/-! ## One spelling only -/

variable {width least n : Nat} {input rest : Bytes} {error : Error}

theorem readWide_eq_ok (h : readWide width least input = .ok (n, rest)) :
    least ≤ n ∧ n < 256 ^ width ∧ input = Bytes.ofNatLE width n ++ rest := by
  unfold readWide at h
  split at h
  · cases h
  · rename_i henough
    have hlength : (input.take width).length = width := by
      rw [List.length_take]
      omega
    simp only at h
    split at h
    · cases h
    · rename_i hleast
      cases h
      have hspelled := Bytes.ofNatLE_toNatLE (input.take width)
      have hfits := Bytes.toNatLE_lt (input.take width)
      rw [hlength] at hspelled hfits
      refine ⟨Nat.le_of_not_lt hleast, hfits, ?_⟩
      rw [hspelled, List.take_append_drop]

/-- A number that is read is spelled by the first bytes of the input as it is written. -/
theorem read_eq_ok (h : read input = .ok (n, rest)) : n < 2 ^ 64 ∧ input = encode n ++ rest := by
  cases input with
  | nil => cases h
  | cons tag tail =>
    rw [read] at h
    split at h
    · rename_i htag
      obtain ⟨hleast, hfits, rfl⟩ := readWide_eq_ok h
      refine ⟨by omega, ?_⟩
      rw [encode, if_neg (by omega), if_pos (by omega), htag, List.cons_append]
    · split at h
      · rename_i htag
        obtain ⟨hleast, hfits, rfl⟩ := readWide_eq_ok h
        refine ⟨by omega, ?_⟩
        rw [encode, if_neg (by omega), if_neg (by omega), if_pos (by omega), htag, List.cons_append]
      · split at h
        · rename_i htag
          obtain ⟨hleast, hfits, rfl⟩ := readWide_eq_ok h
          refine ⟨hfits, ?_⟩
          rw [encode, if_neg (by omega), if_neg (by omega), if_neg (by omega), htag,
            List.cons_append]
        · rename_i hfd hfe hff
          cases h
          have hsmall : tag.toNat < 0xfd := by
            have hlt := tag.toNat_lt
            have hfd : tag.toNat ≠ 0xfd := fun htag => hfd (UInt8.toNat_inj.1 htag)
            have hfe : tag.toNat ≠ 0xfe := fun htag => hfe (UInt8.toNat_inj.1 htag)
            have hff : tag.toNat ≠ 0xff := fun htag => hff (UInt8.toNat_inj.1 htag)
            omega
          refine ⟨by omega, ?_⟩
          rw [encode, if_pos hsmall, UInt8.ofNat_toNat, List.singleton_append]

/-- Whether bytes are read as a number, with nothing left over. -/
def IsSpelling (spelling : Bytes) (n : Nat) : Prop := read spelling = .ok (n, [])

theorem isSpelling_iff {spelling : Bytes} : IsSpelling spelling n ↔ n < 2 ^ 64 ∧ spelling = encode n := by
  constructor
  · intro h
    simpa using read_eq_ok h
  · rintro ⟨hn, rfl⟩
    simpa [IsSpelling] using read_encode hn []

/-- Behind a spelling that is read, whatever follows is left over. So a longer spelling does not begin
with it. -/
theorem IsSpelling.eq_of_isPrefix {spelling longer : Bytes} {m : Nat} (h : IsSpelling spelling m)
    (hlonger : IsSpelling longer n) (hstart : spelling <+: longer) : spelling = longer := by
  obtain ⟨tail, rfl⟩ := hstart
  obtain ⟨hm, rfl⟩ := isSpelling_iff.1 h
  have hread : read (encode m ++ tail) = .ok (n, []) := hlonger
  rw [read_encode hm] at hread
  cases hread
  exact (List.append_nil _).symm

/-- A number of eight bytes is written with as many bytes as foreseen, and what is written is read as that
number whatever follows. Conversely, what is read as a number begins with that number as it is written. So
every number has exactly one spelling, and no spelling is a proper beginning of another. -/
theorem numbers_spelled_once :
    (∀ n < 2 ^ 64, ∀ tail, (encode n).length = encodedLength n ∧
      read (encode n ++ tail) = .ok (n, tail)) ∧
    (∀ input n rest, read input = .ok (n, rest) → n < 2 ^ 64 ∧ input = encode n ++ rest) ∧
    (∀ n < 2 ^ 64, ∃! spelling, IsSpelling spelling n) ∧
    ∀ spelling longer m n, IsSpelling spelling m → IsSpelling longer n → spelling <+: longer →
      spelling = longer := by
  refine ⟨fun n hn tail => ⟨length_encode n, read_encode hn tail⟩, fun _ _ _ h => read_eq_ok h,
    fun n hn => ?_, fun _ _ _ _ h hlonger hstart => h.eq_of_isPrefix hlonger hstart⟩
  refine ⟨encode n, isSpelling_iff.2 ⟨hn, rfl⟩, ?_⟩
  intro spelling h
  exact (isSpelling_iff.1 h).2

/-- The largest number that takes two bytes behind its tag and the smallest that takes four. -/
theorem numbers_spelled_once_wider :
    read ([0xfd, 0xff, 0xff] ++ [0x2a]) = .ok (0xffff, [0x2a]) ∧
      (encode 0x10000).length = 5 ∧
      encode 0x10000 = [0xfe, 0x00, 0x00, 0x01, 0x00] ∧
      (∃! spelling, IsSpelling spelling 0x10000) ∧
      ∀ n, IsSpelling [0xfe, 0x00, 0x00, 0x01, 0x00, 0x2a] n → False := by
  obtain ⟨hwritten, hread, hunique, hstart⟩ := numbers_spelled_once
  have hspelling : IsSpelling [0xfe, 0x00, 0x00, 0x01, 0x00] 0x10000 := rfl
  refine ⟨(hwritten 0xffff (by decide) [0x2a]).2, (hwritten 0x10000 (by decide) []).1, ?_,
    hunique 0x10000 (by decide), ?_⟩
  · simpa using (hread _ 0x10000 [] hspelling).2.symm
  · intro n hlonger
    exact absurd (hstart _ _ _ n hspelling hlonger ⟨[0x2a], rfl⟩) (by decide)

/-- A number is not read because the input ends too early, or because a tag is followed by the bytes of a
number that can be written with fewer. -/
def IsUnreadable (input : Bytes) : Error → Prop
  | .truncated expected => input.length ≤ expected
  | .nonCanonical value => ∃ tag width tail, input = tag :: Bytes.ofNatLE width value ++ tail ∧
      (encode value).length ≤ width

theorem readWide_eq_error {tag : UInt8} (hshort : ∀ value < least, (encode value).length ≤ width)
    (h : readWide width least input = .error error) : IsUnreadable (tag :: input) error := by
  unfold readWide at h
  split at h
  · rename_i hends
    cases h
    exact hends
  · rename_i henough
    simp only at h
    split at h
    · rename_i hleast
      cases h
      have hspelled := Bytes.ofNatLE_toNatLE (input.take width)
      rw [List.length_take, Nat.min_eq_left (Nat.le_of_not_lt henough)] at hspelled
      refine ⟨tag, width, input.drop width, ?_, hshort _ hleast⟩
      rw [hspelled, List.cons_append, List.take_append_drop]
    · cases h

theorem read_eq_error (h : read input = .error error) : IsUnreadable input error := by
  cases input with
  | nil =>
    cases h
    exact Nat.zero_le 1
  | cons tag tail =>
    have hshort (least width : Nat) (hwidth : ∀ value < least, encodedLength value ≤ width) :
        ∀ value < least, (encode value).length ≤ width := by
      intro value hvalue
      rw [length_encode]
      exact hwidth value hvalue
    rw [read] at h
    split at h
    · refine readWide_eq_error (hshort 0xfd 2 fun value hvalue => ?_) h
      rw [encodedLength, if_pos hvalue]
      decide
    · split at h
      · refine readWide_eq_error (hshort 0x10000 4 fun value hvalue => ?_) h
        unfold encodedLength
        split_ifs <;> omega
      · split at h
        · refine readWide_eq_error (hshort 0x100000000 8 fun value hvalue => ?_) h
          unfold encodedLength
          split_ifs <;> omega
        · cases h

end CompactSize

end CoinScript
