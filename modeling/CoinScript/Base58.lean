import CoinScript.Hash

/-!
# Base58Check

A byte string is written as the base 58 digits of the number it denotes, most significant first,
after one digit `1` for every leading zero byte. The checked form ends in four bytes of the double
SHA-256 of what comes before them.
-/

namespace CoinScript.Base58

/-- Why a text is not the checked form of a byte string. -/
inductive Error where
  /-- A character is not in the alphabet. -/
  | decode
  /-- There are fewer bytes than the checksum has. -/
  | tooShort
  | incorrectChecksum
  deriving DecidableEq, Repr

def Error.message : Error → String
  | .decode => "decode"
  | .tooShort => "too short"
  | .incorrectChecksum => "incorrect checksum"

-- ---------------------------------------------------------------------------
-- Digits
-- ---------------------------------------------------------------------------

/-- The digits in the order of their values. -/
def alphabet : List Char :=
  "123456789ABCDEFGHJKLMNPQRSTUVWXYZabcdefghijkmnopqrstuvwxyz".toList

def digit (n : Nat) : Char := alphabet.getD n '1'

def digitValue? (c : Char) : Option Nat := alphabet.findIdx? (· = c)

/-- The digits of a number in a base, least significant first and without leading zeros. -/
def digitsLE (base n : Nat) : List Nat :=
  if _ : n = 0 ∨ base < 2 then [] else n % base :: digitsLE base (n / base)
termination_by n
decreasing_by exact Nat.div_lt_self (by omega) (by omega)

/-- The number that digits in a base denote, least significant first. -/
def ofDigitsLE (base : Nat) : List Nat → Nat
  | [] => 0
  | d :: rest => d + base * ofDigitsLE base rest

-- ---------------------------------------------------------------------------
-- Plain form
-- ---------------------------------------------------------------------------

def encode (bytes : Bytes) : String :=
  let zeros := bytes.takeWhile (· = 0)
  let digits := (digitsLE 58 bytes.toNatBE).reverse
  String.ofList (zeros.map (fun _ => '1') ++ digits.map digit)

def decode? (text : String) : Option Bytes := do
  let digits ← text.toList.mapM digitValue?
  let zeros := digits.takeWhile (· = 0)
  let bytes := (digitsLE 256 (ofDigitsLE 58 digits.reverse)).reverse
  return zeros.map (fun _ => 0) ++ bytes.map UInt8.ofNat

-- ---------------------------------------------------------------------------
-- Checked form
-- ---------------------------------------------------------------------------

/-- The number of bytes of the checksum. -/
def checksumSize : Nat := 4

def checksum (payload : Bytes) : Bytes := (hash256 payload).bytes.take checksumSize

def encodeCheck (payload : Bytes) : String := encode (payload ++ checksum payload)

def decodeCheck (text : String) : Except Error Bytes :=
  match decode? text with
  | none => .error .decode
  | some bytes =>
    if bytes.length < checksumSize then .error .tooShort
    else
      let payload := bytes.take (bytes.length - checksumSize)
      if bytes.drop (bytes.length - checksumSize) = checksum payload then .ok payload
      else .error .incorrectChecksum

end CoinScript.Base58
