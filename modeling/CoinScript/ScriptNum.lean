import CoinScript.Bytes
import CoinScript.Hex

/-!
# Script numbers

Integers on the stack are sign-magnitude byte strings, least significant byte first, with the sign
in the top bit of the last byte. Zero is the empty string.
-/

namespace CoinScript.ScriptNum

/-- Why a stack element is not read as a number. -/
inductive Error where
  | nonMinimal (bytes : Bytes)
  | overflow (maxSize actual : Nat)
  deriving DecidableEq, Repr

def Error.message : Error → String
  | .nonMinimal bytes =>
    "non-minimal encoding of script number: ["
      ++ ", ".intercalate (bytes.map fun b => Hex.encode [b]) ++ "]"
  | .overflow maxSize actual =>
    "script number overflow: max: " ++ toString maxSize ++ ", actual: " ++ toString actual

/-- The widest operand of an arithmetic opcode, in bytes. -/
def operandSize : Nat := 4

/-- The widest lock time, in bytes. -/
def lockTimeSize : Nat := 5

/-- The widest number that is ever read, in bytes. -/
def widestSize : Nat := 8

-- ---------------------------------------------------------------------------
-- Reading
-- ---------------------------------------------------------------------------

/-- Sign and magnitude of a byte string: whether the top bit of its last byte is set, and the number
the other bits denote. -/
def signMagnitude : Bytes → Bool × Nat
  | [] => (false, 0)
  | [last] => (last &&& 0x80 != 0, (last &&& 0x7f).toNat)
  | b :: rest =>
    let (negative, magnitude) := signMagnitude rest
    (negative, b.toNat + 256 * magnitude)

/-- The integer a byte string of any length denotes. -/
def value (bytes : Bytes) : Int :=
  match signMagnitude bytes with
  | (true, magnitude) => -(magnitude : Int)
  | (false, magnitude) => magnitude

/-- Whether the last byte is needed: it carries bits of the magnitude, or the byte before it has its
top bit set. So neither padding nor a negative zero is minimal. -/
def isMinimal : Bytes → Bool
  | [] => true
  | [last] => last &&& 0x7f != 0
  | [before, last] => last &&& 0x7f != 0 || before &&& 0x80 != 0
  | _ :: rest => isMinimal rest

/-- Reads a number of at most `maxSize` bytes; no limit above eight bytes is honoured. -/
def decode (requireMinimal : Bool) (maxSize : Nat) (bytes : Bytes) : Except Error Int :=
  let maxSize := min maxSize widestSize
  if bytes.isEmpty then .ok 0
  else if bytes.length > maxSize then .error (.overflow maxSize bytes.length)
  else if requireMinimal && !isMinimal bytes then .error (.nonMinimal bytes)
  else .ok (value bytes)

/-- The empty element is zero; any other one is its value, unless it is too long or not minimal. -/
theorem decode_eq_ok_iff {minimal : Bool} {maxSize : Nat} {element : Bytes} {n : Int} :
    decode minimal maxSize element = .ok n ↔
      (element = [] ∧ 0 = n) ∨ (element ≠ [] ∧ element.length ≤ min maxSize widestSize ∧
        (minimal → isMinimal element) ∧ value element = n) := by
  unfold decode
  by_cases hnil : element = []
  · simp [hnil]
  · by_cases hlen : min maxSize widestSize < element.length
    · have hnot : ¬element.length ≤ min maxSize widestSize := by omega
      simp only [List.isEmpty_iff, hnil, hlen, hnot, if_true, if_false]
      simp
    · have hle : element.length ≤ min maxSize widestSize := by omega
      simp only [List.isEmpty_iff, hnil, hlen, hle, if_false]
      cases minimal <;> cases isMinimal element <;> simp [hnil]

-- ---------------------------------------------------------------------------
-- Writing
-- ---------------------------------------------------------------------------

/-- The bytes of a positive magnitude with the sign in the top bit. A magnitude that already uses
that bit gets one more byte. -/
def encodeMagnitude (negative : Bool) (magnitude : Nat) : Bytes :=
  if magnitude < 0x80 then [UInt8.ofNat magnitude ||| (if negative then 0x80 else 0)]
  else UInt8.ofNat magnitude :: encodeMagnitude negative (magnitude / 256)
termination_by magnitude

/-- The shortest byte string that denotes an integer. -/
def encode (n : Int) : Bytes :=
  if n = 0 then [] else encodeMagnitude (n < 0) n.natAbs

end CoinScript.ScriptNum
