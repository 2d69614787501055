import CoinScript.Bytes
import CoinScript.Secp256k1.Curve

/-!
# Pairs of numbers in DER

A signature is a pair of scalars, written as a DER sequence of two integers. It is read in two ways:
strictly, where every length is exact and as short as it can be, and leniently, as signatures have
been found in old blocks. In both, numbers that are no scalars are read as zero, which no valid
signature contains.
-/

namespace CoinScript.Secp256k1

/-- The two numbers of a signature. -/
structure Signature where
  r : Scalar
  s : Scalar
  deriving DecidableEq, Repr

namespace Signature

/-- Whether the second number is in the lower half of its range. -/
def isLowS (sig : Signature) : Bool := sig.s.val ≤ groupOrder / 2

/-- The signature with the second number in the lower half: both choices sign the same message. -/
def normalized (sig : Signature) : Signature := if sig.isLowS then sig else { sig with s := -sig.s }

-- ---------------------------------------------------------------------------
-- Strict reading
-- ---------------------------------------------------------------------------

/-- A length in its shortest form: one byte below `80`, or a count and that many bytes. -/
def strictLength? : Bytes → Option (Nat × Bytes)
  | [] => none
  | first :: rest =>
    if first < 0x80 then some (first.toNat, rest)
    else if first = 0x80 ∨ first = 0xff then none
    else
      let count := first.toNat - 0x80
      let length := Bytes.toNatBE (rest.take count)
      if rest.length < count ∨ 8 < count ∨ rest.head? = some 0 ∨ length < 0x80 then none
      else some (length, rest.drop count)

/-- Whether the first byte could be left out without a change of the value. -/
def isPadded : Bytes → Bool
  | first :: second :: _ => (first = 0x00 ∧ second < 0x80) ∨ (first = 0xff ∧ 0x80 ≤ second)
  | _ => false

/-- An integer: tag, length and the shortest two's complement form. -/
def strictInteger? : Bytes → Option (Scalar × Bytes)
  | [] => none
  | tag :: rest => do
    if tag ≠ 0x02 then none
    let (length, rest) ← strictLength? rest
    let bytes : Bytes := rest.take length
    if length = 0 ∨ rest.length < length ∨ isPadded bytes then none
    let value : Scalar :=
      if 0x80 ≤ bytes.headD 0 then 0 else (ofNat? groupOrder bytes.toNatBE).getD 0
    return (value, rest.drop length)

/-- Reads a signature strictly. -/
def ofDer? : Bytes → Option Signature
  | [] => none
  | tag :: rest => do
    if tag ≠ 0x30 then none
    let (length, rest) ← strictLength? rest
    if length ≠ rest.length then none
    let (r, rest) ← strictInteger? rest
    let (s, rest) ← strictInteger? rest
    if rest.isEmpty then some ⟨r, s⟩ else none

-- ---------------------------------------------------------------------------
-- Lenient reading
-- ---------------------------------------------------------------------------

/-- The bytes after the length of the sequence, whatever that length is. -/
def skipLength? : Bytes → Option Bytes
  | [] => none
  | first :: rest =>
    if first < 0x80 then some rest
    else
      let count := first.toNat - 0x80
      if rest.length < count then none else some (rest.drop count)

/-- A length of fewer than eight bytes, leading zeros not counted. -/
def laxLength? : Bytes → Option (Nat × Bytes)
  | [] => none
  | first :: rest =>
    if first < 0x80 then some (first.toNat, rest)
    else
      let count := first.toNat - 0x80
      let digits := (rest.take count).dropWhile (· = 0)
      if rest.length < count ∨ 8 ≤ digits.length then none
      else some (Bytes.toNatBE digits, rest.drop count)

/-- The number of an integer with any number of leading zeros. -/
def laxInteger? : Bytes → Option (Nat × Bytes)
  | [] => none
  | tag :: rest => do
    if tag ≠ 0x02 then none
    let (length, rest) ← laxLength? rest
    if rest.length < length then none
    return (Bytes.toNatBE (rest.take length), rest.drop length)

/-- Reads a signature leniently. Bytes after the second integer are ignored, and if one of the
numbers is no scalar then both are read as zero. -/
def ofLaxDer? : Bytes → Option Signature
  | [] => none
  | tag :: rest => do
    if tag ≠ 0x30 then none
    let rest ← skipLength? rest
    let (r, rest) ← laxInteger? rest
    let (s, _) ← laxInteger? rest
    match ofNat? groupOrder r, ofNat? groupOrder s with
    | some r, some s => some ⟨r, s⟩
    | _, _ => some ⟨0, 0⟩

-- ---------------------------------------------------------------------------
-- Writing
-- ---------------------------------------------------------------------------

/-- The shortest two's complement form of a number. -/
def integerBytes (n : Nat) : Bytes :=
  match (Bytes.ofNatBE 32 n).dropWhile (· = 0) with
  | [] => [0x00]
  | first :: rest => if first < 0x80 then first :: rest else 0x00 :: first :: rest

/-- Tag, length and contents. -/
def tagged (tag : UInt8) (contents : Bytes) : Bytes := tag :: UInt8.ofNat contents.length :: contents

def toDer (sig : Signature) : Bytes :=
  tagged 0x30 (tagged 0x02 (integerBytes sig.r.val) ++ tagged 0x02 (integerBytes sig.s.val))

end Signature

end CoinScript.Secp256k1
