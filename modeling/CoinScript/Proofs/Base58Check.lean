import CoinScript.Base58
import Mathlib.Data.List.TakeWhile
import Mathlib.Data.Nat.Digits.Lemmas

/-!
# Texts and the byte strings they denote

A byte string and its text are lists of digits, most significant first, in the bases 256 and 58.
Such a list is determined by the number of zeros in front and the number it denotes, and these two
a byte string and its text have in common (`IsText`). So the text of a byte string is the only one
that is read as it, in the plain form (`decode?_eq_some_iff`) and in the checked one
(`decodeCheck_eq_ok_iff`).
-/

namespace CoinScript.Base58

variable {base zeros value : Nat} {digits : List Nat} {text : String} {bytes payload : Bytes}

/-! ## Digits in a base -/

theorem digitsLE_eq_digits (hbase : 2 ≤ base) (n : Nat) : digitsLE base n = Nat.digits base n := by
  induction n using Nat.strong_induction_on with
  | _ n ih =>
    by_cases hn : n = 0
    · simp [digitsLE, hn]
    · have hquot : n / base < n := Nat.div_lt_self (by omega) (by omega)
      rw [digitsLE, dif_neg (by omega), Nat.digits_def' (by omega) (by omega), ih _ hquot]

theorem ofDigitsLE_eq_ofDigits (base : Nat) (digits : List Nat) :
    ofDigitsLE base digits = Nat.ofDigits base digits := by
  induction digits with
  | nil => rfl
  | cons d rest ih => rw [ofDigitsLE, ih, Nat.ofDigits_cons]

theorem exists_replicate_append (digits : List Nat) :
    ∃ back, digits = List.replicate (digits.takeWhile (· = 0)).length 0 ++ back ∧
      ∀ hne : back ≠ [], back.head hne ≠ 0 := by
  have hzeros : digits.takeWhile (· = 0) = List.replicate (digits.takeWhile (· = 0)).length 0 :=
    List.eq_replicate_iff.2 ⟨rfl, fun d hd => by simpa using List.mem_takeWhile_imp hd⟩
  refine ⟨digits.dropWhile (· = 0), ?_, fun hne => ?_⟩
  · rw [← hzeros, List.takeWhile_append_dropWhile]
  · exact of_decide_eq_false (List.head_dropWhile_not _ hne)

/-- Digits in a base, most significant first, with so many zeros in front, and the number that they
denote. -/
structure Spells (base : Nat) (digits : List Nat) (zeros value : Nat) : Prop where
  lt : ∀ d ∈ digits, d < base
  zeros : (digits.takeWhile (· = 0)).length = zeros
  value : ofDigitsLE base digits.reverse = value

/-- After its zeros a list of digits is the shortest form of the number. -/
theorem Spells.eq (hbase : 2 ≤ base) (h : Spells base digits zeros value) :
    digits = List.replicate zeros 0 ++ (digitsLE base value).reverse := by
  obtain ⟨back, hdigits, hhead⟩ := exists_replicate_append digits
  rw [h.zeros] at hdigits
  have hvalue : value = Nat.ofDigits base back.reverse := by
    rw [← h.value, ofDigitsLE_eq_ofDigits, hdigits, List.reverse_append, List.reverse_replicate,
      Nat.ofDigits_append_replicate_zero]
  have hback : Nat.digits base value = back.reverse := by
    rw [hvalue]
    refine Nat.digits_ofDigits base hbase back.reverse (fun d hd => h.lt d ?_) fun hne => ?_
    · exact hdigits ▸ List.mem_append_right _ (List.mem_reverse.1 hd)
    · rw [List.getLast_reverse]
      exact hhead _
  rw [digitsLE_eq_digits hbase, hback, List.reverse_reverse, ← hdigits]

/-- Zeros and the shortest form of a number are told apart by where the zeros end: the shortest form
begins with none. -/
theorem spells_replicate (hbase : 2 ≤ base) (zeros value : Nat) :
    Spells base (List.replicate zeros 0 ++ (digitsLE base value).reverse) zeros value where
  lt d hd := by
    rw [digitsLE_eq_digits hbase, List.mem_append, List.mem_reverse] at hd
    obtain hzero | hdigit := hd
    · rw [List.eq_of_mem_replicate hzero]
      omega
    · exact Nat.digits_lt_base hbase hdigit
  zeros := by
    have hback : (digitsLE base value).reverse.takeWhile (· = 0) = [] := by
      rw [List.takeWhile_eq_nil_iff, digitsLE_eq_digits hbase]
      intro hpos
      have hne : value ≠ 0 := by
        rintro rfl
        simp at hpos
      rw [List.get_eq_getElem, ← List.head_eq_getElem_zero, List.head_reverse]
      · simpa using Nat.getLast_digit_ne_zero base hne
      · simpa [Nat.digits_ne_nil_iff_ne_zero] using hne
    rw [List.takeWhile_append_of_pos (by simp), hback, List.append_nil, List.length_replicate]
  value := by
    rw [ofDigitsLE_eq_ofDigits, digitsLE_eq_digits hbase, List.reverse_append, List.reverse_reverse,
      List.reverse_replicate, Nat.ofDigits_append_replicate_zero, Nat.ofDigits_digits]

/-! ## Characters -/

theorem digitValue?_digit {n : Nat} (h : n < 58) : digitValue? (digit n) = some n := by
  have hall : ∀ n < 58, digitValue? (digit n) = some n := by decide +kernel
  exact hall n h

theorem digitValue?_eq_some_iff {c : Char} {n : Nat} :
    digitValue? c = some n ↔ n < 58 ∧ digit n = c := by
  constructor
  · intro h
    obtain ⟨hn, hc, -⟩ := List.findIdx?_eq_some_iff_getElem.1 h
    have hlength : alphabet.length = 58 := by decide +kernel
    refine ⟨hlength ▸ hn, ?_⟩
    rw [digit, List.getD_eq_getElem?_getD, List.getElem?_eq_getElem hn]
    exact of_decide_eq_true hc
  · rintro ⟨hn, rfl⟩
    exact digitValue?_digit hn

theorem mapM_digitValue?_eq_some_iff {chars : List Char} :
    chars.mapM digitValue? = some digits ↔ (∀ d ∈ digits, d < 58) ∧ digits.map digit = chars := by
  induction chars generalizing digits with
  | nil => cases digits <;> simp
  | cons c rest ih =>
    rw [List.mapM_cons]
    constructor
    · intro h
      obtain ⟨d, hd, h⟩ := Option.bind_eq_some_iff.1 h
      obtain ⟨ds, hds, h⟩ := Option.bind_eq_some_iff.1 h
      cases h
      obtain ⟨hlt, rfl⟩ := digitValue?_eq_some_iff.1 hd
      obtain ⟨hall, rfl⟩ := ih.1 hds
      exact ⟨List.forall_mem_cons.2 ⟨hlt, hall⟩, rfl⟩
    · rintro ⟨hall, hmap⟩
      obtain ⟨d, ds, rfl, rfl, rfl⟩ := List.map_eq_cons_iff.1 hmap
      rw [List.forall_mem_cons] at hall
      rw [digitValue?_digit hall.1, ih.2 ⟨hall.2, rfl⟩]
      rfl

/-! ## Bytes -/

theorem ofDigitsLE_toNat (bytes : Bytes) :
    ofDigitsLE 256 (bytes.map UInt8.toNat) = bytes.toNatLE := by
  induction bytes with
  | nil => rfl
  | cons byte rest ih => rw [List.map_cons, ofDigitsLE, ih, Bytes.toNatLE_cons]

/-- A byte string as digits: its leading zeros and the number that it denotes are those of its
bytes. -/
theorem spells_toNat (bytes : Bytes) :
    Spells 256 (bytes.map UInt8.toNat) (bytes.takeWhile (· = 0)).length bytes.toNatBE where
  lt d hd := by
    obtain ⟨byte, -, rfl⟩ := List.mem_map.1 hd
    exact byte.toNat_lt
  zeros := by
    have hzero : (fun d => decide (d = 0)) ∘ UInt8.toNat = fun byte => decide (byte = 0) := by
      funext byte
      simp [← UInt8.toNat_inj]
    rw [List.takeWhile_map, hzero, List.length_map]
  value := by rw [← List.map_reverse, ofDigitsLE_toNat, Bytes.toNatBE]

theorem map_toNat_ofNat (h : ∀ d ∈ digits, d < 256) :
    (digits.map UInt8.ofNat).map UInt8.toNat = digits := by
  rw [List.map_map]
  refine (List.map_congr_left fun d hd => ?_).trans (List.map_id digits)
  exact Nat.mod_eq_of_lt (h d hd)

theorem map_ofNat_toNat (bytes : Bytes) : (bytes.map UInt8.toNat).map UInt8.ofNat = bytes := by
  simp [List.map_map, Function.comp_def]

/-! ## Plain form -/

/-- The text and the byte string are digits with the same number of zeros in front that denote the
same number. -/
def IsText (text : String) (bytes : Bytes) : Prop :=
  ∃ digits zeros value, digits.map digit = text.toList ∧ Spells 58 digits zeros value ∧
    Spells 256 (bytes.map UInt8.toNat) zeros value

theorem isText_iff_encode : IsText text bytes ↔ encode bytes = text := by
  have hbytes := spells_toNat bytes
  have hencode : (encode bytes).toList =
      (List.replicate (bytes.takeWhile (· = 0)).length 0
        ++ (digitsLE 58 bytes.toNatBE).reverse).map digit := by
    have hone : digit 0 = '1' := by decide +kernel
    rw [encode, String.toList_ofList, List.map_append, List.map_replicate, hone, List.map_const']
  rw [← String.toList_inj, hencode]
  constructor
  · rintro ⟨digits, zeros, value, htext, hdigits, hspells⟩
    obtain rfl := hbytes.zeros.symm.trans hspells.zeros
    obtain rfl := hbytes.value.symm.trans hspells.value
    rw [← htext, hdigits.eq (by omega)]
  · intro htext
    exact ⟨_, _, _, htext, spells_replicate (by omega) _ _, hbytes⟩

theorem decode?_eq (h : text.toList.mapM digitValue? = some digits) :
    decode? text = some ((List.replicate (digits.takeWhile (· = 0)).length 0
      ++ (digitsLE 256 (ofDigitsLE 58 digits.reverse)).reverse).map UInt8.ofNat) := by
  rw [decode?, h, List.map_append, List.map_replicate, ← List.map_const']
  rfl

theorem isText_iff_decode? : IsText text bytes ↔ decode? text = some bytes := by
  constructor
  · rintro ⟨digits, zeros, value, htext, hdigits, hbytes⟩
    have hread := mapM_digitValue?_eq_some_iff.2 ⟨hdigits.lt, htext⟩
    rw [decode?_eq hread, hdigits.zeros, hdigits.value, ← hbytes.eq (by omega), map_ofNat_toNat]
  · intro h
    obtain ⟨digits, hread, -⟩ := Option.bind_eq_some_iff.1 h
    obtain ⟨hlt, htext⟩ := mapM_digitValue?_eq_some_iff.1 hread
    have hspells := spells_replicate (show 2 ≤ 256 by omega) (digits.takeWhile (· = 0)).length
      (ofDigitsLE 58 digits.reverse)
    obtain rfl := Option.some.inj ((decode?_eq hread).symm.trans h)
    refine ⟨digits, _, _, htext, ⟨hlt, rfl, rfl⟩, ?_⟩
    rwa [map_toNat_ofNat hspells.lt]

/-- A text is read as a byte string exactly if it is the text of that byte string. -/
theorem decode?_eq_some_iff : decode? text = some bytes ↔ encode bytes = text :=
  isText_iff_decode?.symm.trans isText_iff_encode

/-! ## Checked form -/

@[simp] theorem length_checksum (payload : Bytes) : (checksum payload).length = checksumSize := by
  rw [checksum, List.length_take, (hash256 payload).length_bytes]
  rfl

/-- A text is read as a payload exactly if it is the checked text of that payload. -/
theorem decodeCheck_eq_ok_iff : decodeCheck text = .ok payload ↔ encodeCheck payload = text := by
  constructor
  · intro h
    unfold decodeCheck at h
    split at h
    · cases h
    · rename_i bytes hbytes
      split at h
      · cases h
      · dsimp only at h
        split at h
        · rename_i hchecksum
          cases h
          rw [encodeCheck, ← hchecksum, List.take_append_drop]
          exact decode?_eq_some_iff.1 hbytes
        · cases h
  · intro h
    have hbytes := decode?_eq_some_iff.2 h
    have hsize : (payload ++ checksum payload).length - checksumSize = payload.length := by simp
    rw [decodeCheck, hbytes]
    simp only
    rw [if_neg (by simp), hsize, List.take_left, List.drop_left, if_pos rfl]

end CoinScript.Base58
