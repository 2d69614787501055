/-!
# Byte strings

Scripts, stack elements, keys and signatures are all byte strings. This module holds the type and
its readings as numbers, least or most significant byte first.
-/

namespace CoinScript

/-- A byte string. -/
abbrev Bytes := List UInt8

/-- What holds of 256 numbers holds of every byte. -/
theorem forall_byte {p : UInt8 → Prop} (h : ∀ n : Fin 256, p (UInt8.ofNat n)) (byte : UInt8) :
    p byte := by
  have hn := h ⟨byte.toNat, byte.toNat_lt⟩
  rwa [UInt8.ofNat_toNat] at hn

namespace Bytes

-- ---------------------------------------------------------------------------
-- Least significant byte first
-- ---------------------------------------------------------------------------

/-- The number a byte string denotes, least significant byte first. -/
def toNatLE : Bytes → Nat
  | [] => 0
  | b :: rest => b.toNat + 256 * toNatLE rest

/-- The `width` lowest bytes of a number, least significant byte first. -/
def ofNatLE : (width : Nat) → Nat → Bytes
  | 0, _ => []
  | width + 1, n => UInt8.ofNat n :: ofNatLE width (n / 256)

@[simp] theorem toNatLE_nil : toNatLE [] = 0 := rfl

@[simp] theorem toNatLE_cons (b : UInt8) (rest : Bytes) :
    toNatLE (b :: rest) = b.toNat + 256 * toNatLE rest := rfl

/-- The lowest byte of a number is its first digit. -/
theorem ofNat_digit (b : UInt8) (n : Nat) : UInt8.ofNat (b.toNat + 256 * n) = b := by
  have hb := b.toNat_lt
  apply UInt8.toNat_inj.1
  rw [UInt8.toNat_ofNat']
  omega

/-- Without its first digit, a number is what the other digits denote. -/
theorem digit_div (b : UInt8) (n : Nat) : (b.toNat + 256 * n) / 256 = n := by
  have hb := b.toNat_lt
  omega

@[simp] theorem length_ofNatLE (width n : Nat) : (ofNatLE width n).length = width := by
  induction width generalizing n with
  | zero => rfl
  | succ width ih => simp [ofNatLE, ih]

-- ---------------------------------------------------------------------------
-- Most significant byte first
-- ---------------------------------------------------------------------------

/-- The number a byte string denotes, most significant byte first. -/
def toNatBE (bytes : Bytes) : Nat := toNatLE bytes.reverse

/-- The `width` lowest bytes of a number, most significant byte first. -/
def ofNatBE (width n : Nat) : Bytes := (ofNatLE width n).reverse

@[simp] theorem length_ofNatBE (width n : Nat) : (ofNatBE width n).length = width := by
  simp [ofNatBE]

end Bytes

end CoinScript
