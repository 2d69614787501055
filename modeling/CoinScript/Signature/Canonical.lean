import CoinScript.Bytes

/-!
# Canonical DER signatures

A canonical signature is `30 length 02 length(R) R 02 length(S) S` of at most 70 bytes after the
first length, where `R` and `S` are not negative (the top bit of their first byte is clear) and not
padded (they start with a zero byte only if the next byte would make them negative).
-/

namespace CoinScript.Signature

/-- Why the bytes of an integer are not canonical. -/
inductive IntegerError where
  | notAnInteger
  | incorrectLength (actual : Nat) (expected : UInt8)
  | zeroLength
  | leadingNullByte
  | negative
  deriving DecidableEq, Repr

def IntegerError.message : IntegerError → String
  | .notAnInteger => "missing the 0x02 integer encoding byte"
  | .incorrectLength actual expected =>
    "the integer was expected to be " ++ toString expected.toNat ++ " bytes, but it was "
      ++ toString actual ++ " bytes"
  | .zeroLength => "integers can’t be zero-length"
  | .leadingNullByte =>
    "leading 0x00 bytes are disallowed, unless it would otherwise be interpreted as a negative number."
  | .negative => "integers can’t be negative"

/-- One of the two integers of a signature. -/
inductive Component where
  | r
  | s
  deriving DecidableEq, Repr

def Component.name : Component → String
  | .r => "r"
  | .s => "s"

/-- Why a signature is not canonical. -/
inductive DerError where
  | wrongType
  | tooLong
  | incorrectLength (actual : Nat) (expected : UInt8)
  | invalidComponent (component : Component) (error : IntegerError)
  | unparseable
  deriving DecidableEq, Repr

def DerError.message : DerError → String
  | .wrongType => "didn’t start with 0x30, or was missing the length"
  | .tooLong => "the signature can’t be longer than 70 bytes"
  | .incorrectLength actual expected =>
    "the signature was expected to be " ++ toString expected.toNat ++ " bytes, but it was "
      ++ toString actual ++ " bytes"
  | .invalidComponent component error =>
    "the " ++ component.name ++ " component failed: " ++ error.message
  | .unparseable => "the signature isn’t a valid secp256k1 signature"

/-- The largest length of what follows the first length byte. -/
def maxContentSize : UInt8 := 70

/-- Whether the top bit of a byte is set. -/
def isHigh (b : UInt8) : Bool := b &&& 0x80 != 0

/-- Checks the bytes of one integer. -/
def checkInteger : Bytes → Except IntegerError Unit
  | [] => .error .zeroLength
  | [first] => if isHigh first then .error .negative else .ok ()
  | first :: second :: _ =>
    if first = 0x00 then
      if isHigh second then .ok () else .error .leadingNullByte
    else if isHigh first then .error .negative
    else .ok ()

/-- Checks the second integer, with its tag and length, after a first integer `r`. -/
def checkSecond (r : Bytes) : Bytes → Except DerError Unit
  | tag :: size :: s =>
    if tag ≠ 0x02 then .error (.invalidComponent .s .notAnInteger)
    else do
      (checkInteger r).mapError (.invalidComponent .r)
      if size.toNat ≠ s.length then
        .error (.invalidComponent .s (.incorrectLength s.length size))
      else (checkInteger s).mapError (.invalidComponent .s)
  | _ => .error (.invalidComponent .s .notAnInteger)

/-- Checks what follows the first length byte. -/
def checkContent : Bytes → Except DerError Unit
  | tag :: size :: rest =>
    if tag ≠ 0x02 then .error (.invalidComponent .r .notAnInteger)
    else if rest.length < size.toNat then
      .error (.invalidComponent .r (.incorrectLength rest.length size))
    else checkSecond (rest.take size.toNat) (rest.drop size.toNat)
  | _ => .error (.invalidComponent .r .notAnInteger)

/-- Checks that a signature, without its hash type, is canonical. -/
def checkDer : Bytes → Except DerError Unit
  | tag :: size :: content =>
    if tag ≠ 0x30 then .error .wrongType
    else if maxContentSize < size then .error .tooLong
    else if size.toNat ≠ content.length then .error (.incorrectLength content.length size)
    else checkContent content
  | _ => .error .wrongType

end CoinScript.Signature
