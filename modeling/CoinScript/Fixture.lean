import CoinScript.Eval

/-!
# A worked example

A spend of an output that pays to a script of two signatures out of three, and keys made from a seed
to sign further examples with.
-/

namespace CoinScript.Fixture

/-- Bytes written in hexadecimal; none if the digits are wrong. -/
def bytes (digits : String) : Bytes := (Hex.decode digits).toOption.getD []

/-- Two signatures out of three. -/
def redeemScript : Script :=
  [.ofOpcode .op2,
   .push (bytes "03b2cc71d23eb30020a4893982a1e2d352da0d20ee657fa02901c432758909ed8f"),
   .push (bytes "029d1e9a9354c0d2aee9ffd0f0cea6c39bbf98c4066cf143115ba2279d0ba7dabe"),
   .push (bytes "03e32096b63fd57f3308149d238dcbb24d8d28aad95c0e4e74e3e5e6a11b61bcc4"),
   .ofOpcode .op3,
   .ofOpcode .opCheckMultiSig]

/-- The bytes of the redeem script. -/
def redeemBody : Bytes := (Script.encode redeemScript).toOption.getD []

/-- The output script, which commits to the redeem script. -/
def scriptPubKey : Script := Script.p2sh (hash160 redeemBody)

/-- The input script: the element that is not used, two signatures and the redeem script. -/
def scriptSig : Script :=
  [.ofOpcode .op0,
   .push (bytes ("3045022100d2ab3e6258fe244fa442cfb38f6cef9ac9a18c54e70b2f508e83fa87e20d0405"
     ++ "02200eead947521de943831d07a350e45af8e36c2166984a8636f0a8811ff03ed09401")),
   .push (bytes ("3044022013e15d865010c257eef133064ef69a780b4bc7ebe6eda367504e806614f940c3"
     ++ "022062fdbc8c2d049f91db2042d6c9771de6f1ef0b3b1fea76c1ab5542e44ed29ed801")),
   .push redeemBody]

/-- The digest that was signed. -/
def sighash : Bytes := bytes "e8c7bdac77f6bb1f3aba2eaa1fada551a9c8b3b5ecd1ef86e6e58a5f1aab952c"

/-- Another digest. -/
def invalidSighash : Bytes := bytes "08c7bdac77f6bb1f3aba2eaa1fada551a9c8b3b5ecd1ef86e6e58a5f1aab952c"

/-- The lock time of the transaction. -/
def lockTime : Int := 0

/-- Whether the transaction is final. -/
def isFinal : Bool := false

-- ---------------------------------------------------------------------------
-- Keys from a seed
-- ---------------------------------------------------------------------------

/-- The secret key whose bytes are all the same. -/
def secretKey? (seed : UInt8) : Option Secp256k1.SecretKey :=
  Secp256k1.SecretKey.ofBytes? (List.replicate 32 seed)

/-- The compressed public key of a secret key. -/
def publicKey? (key : Secp256k1.SecretKey) : Option Bytes :=
  key.publicPoint?.map Secp256k1.Point.compressed

/-- A DER signature with the hash type that covers everything. -/
def sign? (key : Secp256k1.SecretKey) (sighash : Digest 32) : Option Bytes :=
  (Secp256k1.sign? key sighash).map fun sig => sig.toDer ++ [Signature.hashTypeAll]

end CoinScript.Fixture
