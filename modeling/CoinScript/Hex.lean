import CoinScript.Bytes

/-!
# Hexadecimal text

Byte strings are shown as two lowercase digits per byte and read from digits of either case. A text
of odd length is refused before any digit is looked at.
-/

namespace CoinScript.Hex

/-- Why a text is not the hexadecimal form of a byte string. -/
inductive Error where
  | oddLength
  /-- The byte `char` at position `index` is no hexadecimal digit. -/
  | invalidDigit (char : UInt8) (index : Nat)
  deriving DecidableEq, Repr

-- ---------------------------------------------------------------------------
-- Writing
-- ---------------------------------------------------------------------------

/-- The lowercase digit for a number below sixteen. -/
def digit (n : Nat) : Char :=
  if n < 10 then Char.ofNat (48 + n) else Char.ofNat (87 + n)

/-- The two digits of a byte, high half first. -/
def byteDigits (b : UInt8) : List Char := [digit (b.toNat / 16), digit (b.toNat % 16)]

def encode (bytes : Bytes) : String := String.ofList (bytes.flatMap byteDigits)

/-- A byte as `0x` and its two digits. -/
def byteLiteral (b : UInt8) : String := "0x" ++ encode [b]

-- ---------------------------------------------------------------------------
-- Reading
-- ---------------------------------------------------------------------------

/-- The value of an ASCII digit of either case. -/
def digitValue? (c : UInt8) : Option UInt8 :=
  if 0x30 ≤ c ∧ c ≤ 0x39 then some (c - 0x30)
  else if 0x41 ≤ c ∧ c ≤ 0x46 then some (c - 0x37)
  else if 0x61 ≤ c ∧ c ≤ 0x66 then some (c - 0x57)
  else none

/-- Reads pairs of digits; `index` is the position of the first of them in the whole text. -/
def decodePairs (index : Nat) : Bytes → Except Error Bytes
  | high :: low :: rest =>
    match digitValue? high, digitValue? low with
    | none, _ => .error (.invalidDigit high index)
    | some _, none => .error (.invalidDigit low (index + 1))
    | some h, some l => (decodePairs (index + 2) rest).map ((h * 16 + l) :: ·)
  | _ => .ok []

/-- Reads the UTF-8 bytes of a text as hexadecimal digits. -/
def decodeBytes (text : Bytes) : Except Error Bytes :=
  if text.length % 2 = 1 then .error .oddLength else decodePairs 0 text

def decode (text : String) : Except Error Bytes := decodeBytes text.toByteArray.data.toList

-- ---------------------------------------------------------------------------
-- Messages
-- ---------------------------------------------------------------------------

/-- A byte, taken as a Latin-1 character, between single quotes. Control characters, the no-break
space and the soft hyphen are written as escapes. -/
def quoted (c : UInt8) : String :=
  let shown :=
    if c = 0x00 then "\\0"
    else if c = 0x09 then "\\t"
    else if c = 0x0a then "\\n"
    else if c = 0x0d then "\\r"
    else if c = 0x27 then "\\'"
    else if c = 0x5c then "\\\\"
    else if c < 0x20 ∨ (0x7f ≤ c ∧ c ≤ 0xa0) ∨ c = 0xad then
      "\\u\x7b" ++ String.ofList (Nat.toDigits 16 c.toNat) ++ "\x7d"
    else String.singleton (Char.ofNat c.toNat)
  "'" ++ shown ++ "'"

def Error.message : Error → String
  | .oddLength => "Odd number of digits"
  | .invalidDigit char index => "Invalid character " ++ quoted char ++ " at position " ++ toString index

end CoinScript.Hex
