import CoinScript.Flags
import CoinScript.Hex
import CoinScript.Secp256k1.Der
import CoinScript.Signature.Canonical

/-!
# Encoding rules for signatures and keys

What the flags demand of the signatures and public keys that reach a signature opcode. On the stack a
signature ends in a byte for its hash type.
-/

namespace CoinScript.Signature

/-- Which encoding rule is broken. -/
inductive Error where
  | hashType (byte : UInt8)
  | der (error : DerError)
  | highS
  | pubKeyType
  deriving DecidableEq, Repr

def Error.message : Error → String
  | .hashType byte => "signature hash type error: " ++ Hex.byteLiteral byte
  | .der error => "signature DER encoding error: " ++ error.message
  | .highS => "signature s value is too high"
  | .pubKeyType => "public key is neither compressed nor uncompressed"

/-- The hash type of signatures that cover all inputs and outputs. -/
def hashTypeAll : UInt8 := 0x01

/-- The hash type of signatures that cover one output. -/
def hashTypeSingle : UInt8 := 0x03

/-- The bit of a hash type for signatures that cover one input. -/
def anyoneCanPay : UInt8 := 0x80

/-- Whether a hash type is defined: `01`, `02` or `03`, with or without the bit for one input. -/
def isDefinedHashType (byte : UInt8) : Bool :=
  let base := byte &&& ~~~anyoneCanPay
  hashTypeAll ≤ base && base ≤ hashTypeSingle

/-- A signature without its hash type, and the hash type. -/
def splitHashType (sig : Bytes) : Option (Bytes × UInt8) :=
  sig.getLast?.map fun hashType => (sig.dropLast, hashType)

/-- Checks the rule on the second number of a signature in DER. -/
def checkLowS (der : Bytes) : Except Error Unit :=
  match Secp256k1.Signature.ofDer? der with
  | none => .error (.der .unparseable)
  | some sig => if sig.isLowS then .ok () else .error .highS

/-- Checks a signature against the flags. The empty one always passes: it is the short way to give an
invalid signature. -/
def checkEncoding (flags : Flags) (sig : Bytes) : Except Error Unit :=
  match splitHashType sig with
  | none => .ok ()
  | some (der, hashType) => do
    if flags.strictEnc || flags.lowS then (checkDer der).mapError .der
    if flags.lowS then checkLowS der
    if flags.strictEnc && !isDefinedHashType hashType then .error (.hashType hashType)

/-- The size of a public key with both coordinates. -/
def uncompressedKeySize : Nat := 65

/-- The size of a public key with one coordinate. -/
def compressedKeySize : Nat := 33

/-- Whether a public key has a tag and the size that goes with it. -/
def isKeyForm (key : Bytes) : Bool :=
  match key.head? with
  | some 0x04 => key.length = uncompressedKeySize
  | some 0x02 | some 0x03 => key.length = compressedKeySize
  | _ => false

/-- Checks a public key against the flags. -/
def checkKeyEncoding (flags : Flags) (key : Bytes) : Except Error Unit :=
  if flags.strictEnc && !isKeyForm key then .error .pubKeyType else .ok ()

end CoinScript.Signature
