import CoinScript.Signature.Canonical
import CoinScript.Proofs.Numbers

/-!
# Canonical signatures

A signature in DER has one length for the whole and one for each of its two integers, and a check that did
not compare all of them with what is there would accept more than one spelling of a signature. This module
says which bytes are canonical integers and how a signature is written with them. The main result is that
the check accepts what is written that way and nothing else, and that this is one spelling, the shortest,
for every pair of numbers that has one.
-/

namespace CoinScript.Signature

/-! ## Integers -/

/-- Whether bytes are a canonical integer: there is a first byte, its top bit is clear, and it is zero only if
no other byte follows or the next one has its top bit set. -/
def IsInteger : Bytes → Prop
  | [] => False
  | first :: rest => first < 0x80 ∧ (first = 0x00 → ∀ second ∈ rest.head?, 0x80 ≤ second)

/-- The canonical integer for a number. It has the bytes of the number on the stack, most significant first,
but zero is a byte. -/
def integer (n : Nat) : Bytes := (ScriptNum.encodeMagnitude false n).reverse

variable {first second : UInt8} {bytes rest r s : Bytes} {n : Nat}

theorem isHigh_eq_true_iff : ∀ byte : UInt8, isHigh byte = true ↔ 0x80 ≤ byte :=
  forall_byte (by decide +kernel)

theorem isHigh_eq_false_iff : ∀ byte : UInt8, isHigh byte = false ↔ byte < 0x80 :=
  forall_byte (by decide +kernel)

theorem checkInteger_eq_ok_iff : checkInteger bytes = .ok () ↔ IsInteger bytes := by
  match bytes with
  | [] => simp [checkInteger, IsInteger]
  | [first] =>
    rw [checkInteger]
    cases hfirst : isHigh first <;>
      simp [IsInteger, ← isHigh_eq_false_iff, hfirst]
  | first :: second :: rest =>
    rw [checkInteger]
    by_cases hzero : first = 0x00
    · cases hsecond : isHigh second <;>
        simp [IsInteger, ← isHigh_eq_true_iff, hzero, hsecond]
    · cases hfirst : isHigh first <;>
        simp [IsInteger, ← isHigh_eq_false_iff, hzero, hfirst]

instance (bytes : Bytes) : Decidable (IsInteger bytes) :=
  decidable_of_iff (checkInteger bytes = .ok ()) checkInteger_eq_ok_iff

/-! ## Integers and their numbers -/

/-- Without a sign, the magnitude is what all bits denote. -/
theorem toNatLE_of_unsigned (h : (ScriptNum.signMagnitude bytes).1 = false) :
    (ScriptNum.signMagnitude bytes).2 = bytes.toNatLE := by
  have hbits : ∀ last : UInt8, (last &&& 0x80 != 0) = false → (last &&& 0x7f).toNat = last.toNat :=
    forall_byte (by decide +kernel)
  fun_induction ScriptNum.signMagnitude bytes with
  | case1 => rfl
  | case2 last => exact hbits last h
  | case3 byte rest hne negative magnitude hrest ih =>
    rw [hrest] at ih
    exact congrArg (byte.toNat + 256 * ·) (ih h)

theorem signMagnitude_append (digits : Bytes) (last : UInt8) :
    (ScriptNum.signMagnitude (digits ++ [last])).1 = isHigh last := by
  induction digits with
  | nil => rfl
  | cons byte digits ih => rw [List.cons_append, ScriptNum.signMagnitude_cons byte (by simp), ih]

theorem isMinimal_append (digits : Bytes) (before last : UInt8) :
    ScriptNum.isMinimal (digits ++ [before, last]) = (last &&& 0x7f != 0 || isHigh before) := by
  induction digits with
  | nil => rfl
  | cons byte digits ih => rw [List.cons_append, ScriptNum.isMinimal_cons byte (by simp), ih]

/-- With a clear top bit in front, bytes denote the magnitude of the number that has them on the stack. -/
theorem signMagnitude_reverse (h : first < 0x80) :
    ScriptNum.signMagnitude (first :: rest).reverse = (false, Bytes.toNatBE (first :: rest)) := by
  have hsign : (ScriptNum.signMagnitude (first :: rest).reverse).1 = false := by
    rw [List.reverse_cons, signMagnitude_append]
    exact (isHigh_eq_false_iff first).2 h
  exact Prod.ext hsign (toNatLE_of_unsigned hsign)

theorem toNatBE_integer (n : Nat) : (integer n).toNatBE = n := by
  have hspelled := ScriptNum.signMagnitude_encodeMagnitude false n
  have hmagnitude := toNatLE_of_unsigned (congrArg Prod.fst hspelled)
  rw [hspelled] at hmagnitude
  rw [Bytes.toNatBE, integer, List.reverse_reverse]
  exact hmagnitude.symm

/-- A canonical integer is the one for its number. -/
theorem integer_toNatBE (h : IsInteger bytes) : integer bytes.toNatBE = bytes := by
  match bytes, h with
  | [first], ⟨hfirst, _⟩ =>
    have hvalue : Bytes.toNatBE [first] = first.toNat := rfl
    rw [hvalue, integer, ScriptNum.encodeMagnitude_of_lt false (UInt8.lt_iff_toNat_lt.1 hfirst),
      UInt8.ofNat_toNat]
    simp
  | first :: second :: rest, ⟨hfirst, hzero⟩ =>
    have hbits : ∀ byte : UInt8, byte < 0x80 → byte ≠ 0 → (byte &&& 0x7f != 0) = true :=
      forall_byte (by decide +kernel)
    have hmin : ScriptNum.isMinimal (first :: second :: rest).reverse := by
      rw [List.reverse_cons, List.reverse_cons, List.append_assoc, List.singleton_append,
        isMinimal_append, Bool.or_eq_true, isHigh_eq_true_iff]
      by_cases hnull : first = 0x00
      · exact .inr (hzero hnull second rfl)
      · exact .inl (hbits first hfirst hnull)
    have hspelled := ScriptNum.encodeMagnitude_signMagnitude hmin (by simp)
    rw [signMagnitude_reverse hfirst] at hspelled
    rw [integer, hspelled, List.reverse_reverse]

theorem isInteger_integer (n : Nat) : IsInteger (integer n) := by
  have hsign : (ScriptNum.signMagnitude (integer n).reverse).1 = false := by
    rw [integer, List.reverse_reverse, ScriptNum.signMagnitude_encodeMagnitude]
  by_cases hsmall : n < 0x80
  · have hbyte : (UInt8.ofNat n).toNat = n := UInt8.toNat_ofNat_of_lt' (Nat.lt_trans hsmall (by decide))
    have hsingle : integer n = [UInt8.ofNat n] := by
      rw [integer, ScriptNum.encodeMagnitude_of_lt false hsmall]
      simp
    rw [hsingle]
    exact ⟨UInt8.lt_iff_toNat_lt.2 (hbyte.symm ▸ hsmall), by simp⟩
  · have hmin : ScriptNum.isMinimal (integer n).reverse := by
      rw [integer, List.reverse_reverse]
      exact ScriptNum.isMinimal_encodeMagnitude false (by omega)
    have hlength : 2 ≤ (integer n).length := by
      rw [integer, List.length_reverse]
      exact ScriptNum.two_le_length (Nat.le_of_not_lt hsmall)
    match integer n, hlength, hsign, hmin with
    | first :: second :: rest, _, hsign, hmin =>
      rw [List.reverse_cons, signMagnitude_append, isHigh_eq_false_iff] at hsign
      rw [List.reverse_cons, List.reverse_cons, List.append_assoc, List.singleton_append,
        isMinimal_append, Bool.or_eq_true, isHigh_eq_true_iff] at hmin
      refine ⟨hsign, ?_⟩
      rintro rfl _ ⟨⟩
      exact hmin.resolve_left (by decide)

/-- No integer with a clear top bit in front is shorter than the canonical one for its number. -/
theorem length_integer_le (h : first < 0x80) :
    (integer (Bytes.toNatBE (first :: rest))).length ≤ (first :: rest).length := by
  have hsize : (ScriptNum.signMagnitude (first :: rest).reverse).2 < 128 * 256 ^ rest.length :=
    ScriptNum.signMagnitude_lt (by simp)
  rw [signMagnitude_reverse h] at hsize
  rw [integer, List.length_reverse, List.length_cons]
  exact ScriptNum.length_encodeMagnitude_le false hsize

/-! ## Signatures -/

/-- Whether bytes are a signature with two integers, each with its tag and its length in front, and all of
it with a tag and a length. -/
structure IsSignature (sig r s : Bytes) : Prop where
  eq : sig = [0x30, UInt8.ofNat (r.length + s.length + 4), 0x02, UInt8.ofNat r.length] ++ r ++
    [0x02, UInt8.ofNat s.length] ++ s
  length_le : r.length + s.length + 4 ≤ 70
  first : IsInteger r
  second : IsInteger s

section

variable {x y : Except DerError Unit}

theorem guard_eq_ok_iff {p : Prop} [Decidable p] {error : DerError} :
    (if p then .error error else x) = .ok () ↔ ¬p ∧ x = .ok () := by
  split <;> simp [*]

theorem seq_eq_ok_iff : (do x; y) = .ok () ↔ x = .ok () ∧ y = .ok () := by
  cases x <;> simp [bind, Except.bind]

theorem mapError_eq_ok_iff {component : Component} :
    (checkInteger bytes).mapError (DerError.invalidComponent component) = .ok () ↔
      IsInteger bytes := by
  rw [← checkInteger_eq_ok_iff]
  cases checkInteger bytes <;> simp [Except.mapError]

end

/-- A length byte tells the number of bytes exactly if it is written for that number, which fits. -/
theorem toNat_eq_iff {size : UInt8} : size.toNat = n ↔ n < 256 ∧ size = UInt8.ofNat n := by
  constructor
  · rintro rfl
    exact ⟨size.toNat_lt, UInt8.ofNat_toNat.symm⟩
  · rintro ⟨hfits, rfl⟩
    exact UInt8.toNat_ofNat_of_lt' hfits

theorem checkSecond_eq_ok_iff :
    checkSecond r rest = .ok () ↔ ∃ s : Bytes, rest = 0x02 :: UInt8.ofNat s.length :: s ∧
      s.length < 256 ∧ IsInteger r ∧ IsInteger s := by
  match rest with
  | [] => simp [checkSecond]
  | [_] => simp [checkSecond]
  | tag :: size :: s =>
    rw [checkSecond, guard_eq_ok_iff, seq_eq_ok_iff, mapError_eq_ok_iff, guard_eq_ok_iff,
      mapError_eq_ok_iff, not_not, not_not, toNat_eq_iff]
    constructor
    · rintro ⟨rfl, hr, ⟨hfits, rfl⟩, hs⟩
      exact ⟨s, rfl, hfits, hr, hs⟩
    · rintro ⟨s', heq, hfits, hr, hs⟩
      cases heq
      exact ⟨rfl, hr, ⟨hfits, rfl⟩, hs⟩

theorem checkContent_eq_ok_iff {content : Bytes} :
    checkContent content = .ok () ↔ ∃ r s : Bytes,
      content = 0x02 :: UInt8.ofNat r.length :: (r ++ 0x02 :: UInt8.ofNat s.length :: s) ∧
        r.length < 256 ∧ s.length < 256 ∧ IsInteger r ∧ IsInteger s := by
  match content with
  | [] => simp [checkContent]
  | [_] => simp [checkContent]
  | tag :: size :: rest =>
    rw [checkContent, guard_eq_ok_iff, guard_eq_ok_iff, checkSecond_eq_ok_iff, not_not, Nat.not_lt]
    constructor
    · rintro ⟨rfl, hle, s, hrest, hfits, hr, hs⟩
      obtain ⟨hfits', hsize⟩ := toNat_eq_iff.1 (List.length_take_of_le hle).symm
      refine ⟨rest.take size.toNat, s, ?_, hfits', hfits, hr, hs⟩
      rw [← hrest, List.take_append_drop, ← hsize]
    · rintro ⟨r, s, heq, hfits, hfits', hr, hs⟩
      cases heq
      have hsize : (UInt8.ofNat r.length).toNat = r.length := toNat_eq_iff.2 ⟨hfits, rfl⟩
      rw [hsize, List.take_left, List.drop_left]
      exact ⟨rfl, by simp, s, rfl, hfits', hr, hs⟩

theorem length_content (r s : Bytes) :
    (0x02 :: UInt8.ofNat r.length :: (r ++ 0x02 :: UInt8.ofNat s.length :: s)).length =
      r.length + s.length + 4 := by
  simp only [List.length_cons, List.length_append]
  omega

/-- The lengths that are checked one after the other say together where everything is. -/
theorem checkDer_eq_ok_iff {sig : Bytes} : checkDer sig = .ok () ↔ ∃ r s, IsSignature sig r s := by
  have hshort : ∀ short : Bytes, short.length < 2 → ¬∃ r s, IsSignature short r s := by
    rintro short hshort ⟨r, s, h⟩
    have hlength := congrArg List.length h.eq
    simp only [List.length_append, List.length_cons] at hlength
    omega
  match sig with
  | [] => exact iff_of_false (by simp [checkDer]) (hshort [] (by decide))
  | [tag] => exact iff_of_false (by simp [checkDer]) (hshort [tag] (by simp))
  | tag :: size :: content =>
    rw [checkDer, guard_eq_ok_iff, guard_eq_ok_iff, guard_eq_ok_iff, checkContent_eq_ok_iff, not_not,
      not_not, UInt8.not_lt, toNat_eq_iff]
    constructor
    · rintro ⟨rfl, hmost, ⟨hfits, rfl⟩, r, s, rfl, -, -, hr, hs⟩
      rw [length_content] at hmost hfits ⊢
      refine ⟨r, s, by simp, ?_, hr, hs⟩
      rw [UInt8.le_iff_toNat_le, toNat_eq_iff.2 ⟨hfits, rfl⟩] at hmost
      exact hmost
    · rintro ⟨r, s, h⟩
      have hmost := h.length_le
      have heq := h.eq
      simp only [List.cons_append, List.nil_append, List.append_assoc, List.cons.injEq] at heq
      obtain ⟨rfl, rfl, rfl⟩ := heq
      rw [length_content]
      have hsize : (UInt8.ofNat (r.length + s.length + 4)).toNat = r.length + s.length + 4 :=
        toNat_eq_iff.2 ⟨by omega, rfl⟩
      refine ⟨rfl, ?_, ⟨by omega, rfl⟩, r, s, rfl, by omega, by omega, h.first, h.second⟩
      rw [UInt8.le_iff_toNat_le, hsize]
      exact hmost

theorem IsSignature.eq_of_toNatBE {sig sig' r' s' : Bytes} (h : IsSignature sig r s)
    (h' : IsSignature sig' r' s') (hr : r.toNatBE = r'.toNatBE) (hs : s.toNatBE = s'.toNatBE) :
    sig = sig' := by
  have hfirst : r = r' := by rw [← integer_toNatBE h.first, hr, integer_toNatBE h'.first]
  have hsecond : s = s' := by rw [← integer_toNatBE h.second, hs, integer_toNatBE h'.second]
  rw [h.eq, h'.eq, hfirst, hsecond]

/-- The check accepts the canonical signatures and nothing else: a tag, a length and two canonical integers,
each with its tag and its length, where no byte is missing or left over and at most 70 follow the first
length. No two of them have the same two numbers. Every number has a canonical integer, and no bytes that
denote it with a clear top bit in front are fewer; so every two numbers whose canonical integers have at most
66 bytes have a canonical signature. -/
theorem canonical_signatures :
    (∀ sig, checkDer sig = .ok () ↔ ∃ r s, IsSignature sig r s) ∧
      (∀ sig sig' r s r' s', IsSignature sig r s → IsSignature sig' r' s' →
        r.toNatBE = r'.toNatBE → s.toNatBE = s'.toNatBE → sig = sig') ∧
      (∀ n, IsInteger (integer n) ∧ (integer n).toNatBE = n ∧
        ∀ first rest, first < 0x80 → Bytes.toNatBE (first :: rest) = n →
          (integer n).length ≤ (first :: rest).length) ∧
      ∀ m n, (integer m).length + (integer n).length ≤ 66 →
        ∃ sig, IsSignature sig (integer m) (integer n) ∧ checkDer sig = .ok () := by
  refine ⟨fun sig => checkDer_eq_ok_iff, fun sig sig' r s r' s' => IsSignature.eq_of_toNatBE, ?_, ?_⟩
  · intro n
    refine ⟨isInteger_integer n, toNatBE_integer n, ?_⟩
    rintro first rest hfirst rfl
    exact length_integer_le hfirst
  · intro m n hlength
    have h := IsSignature.mk rfl (Nat.add_le_add_right hlength 4) (isInteger_integer m)
      (isInteger_integer n)
    exact ⟨_, h, checkDer_eq_ok_iff.2 ⟨_, _, h⟩⟩

/-- The first number needs a zero byte in front, and the second is zero. -/
theorem canonical_signatures_sign_byte :
    checkDer [0x30, 0x07, 0x02, 0x02, 0x00, 0x80, 0x02, 0x01, 0x00] = .ok () ∧
      ∀ sig r s, IsSignature sig r s → r.toNatBE = 0x80 → s.toNatBE = 0 →
        sig = [0x30, 0x07, 0x02, 0x02, 0x00, 0x80, 0x02, 0x01, 0x00] := by
  obtain ⟨haccepted, hunique, -⟩ := canonical_signatures
  have h : IsSignature [0x30, 0x07, 0x02, 0x02, 0x00, 0x80, 0x02, 0x01, 0x00] [0x00, 0x80] [0x00] :=
    ⟨rfl, by decide, by decide, by decide⟩
  exact ⟨(haccepted _).2 ⟨_, _, h⟩, fun sig r s hsig hr hs => hunique _ _ _ _ _ _ hsig h hr hs⟩

end CoinScript.Signature
