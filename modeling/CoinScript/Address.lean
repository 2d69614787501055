import CoinScript.Base58
import CoinScript.Script.Template

/-!
# Addresses

The Base58Check text of the output scripts that have one: a version byte for the network and the
kind of script, and the hash that the script commits to.
-/

namespace CoinScript

inductive Network where
  | mainnet
  | testnet
  | regtest
  deriving DecidableEq, Repr

namespace Network

def name : Network → String
  | .mainnet => "mainnet"
  | .testnet => "testnet"
  | .regtest => "regtest"

/-- The version byte of addresses that pay to a key. -/
def pubKeyHashVersion : Network → UInt8
  | .mainnet => 0x00
  | .testnet | .regtest => 0x6f

/-- The version byte of addresses that pay to a script. -/
def scriptHashVersion : Network → UInt8
  | .mainnet => 0x05
  | .testnet | .regtest => 0xc4

end Network

/-- Where an output sends its value. -/
inductive Address where
  | pubKeyHash (network : Network) (hash : Digest 20)
  | scriptHash (network : Network) (hash : Digest 20)
  /-- Stands in for the address of an output that only carries data. -/
  | nullData (data : Bytes)
  deriving DecidableEq, Repr

namespace Address

/-- Why a text is not an address. -/
inductive Error where
  | base58 (error : Base58.Error)
  | invalidLength (length : Nat)
  | unknownVersion (version : UInt8)
  deriving DecidableEq, Repr

def Error.message : Error → String
  | .base58 error => "invalid base58check encoding: " ++ error.message
  | .invalidLength length => "expected a 21-byte payload, got " ++ toString length ++ " bytes"
  | .unknownVersion version => "unknown version byte " ++ Hex.byteLiteral version

/-- The version byte and the hash: what the text encodes. -/
def payload? : Address → Option Bytes
  | .pubKeyHash network hash => some (network.pubKeyHashVersion :: hash.bytes)
  | .scriptHash network hash => some (network.scriptHashVersion :: hash.bytes)
  | .nullData _ => none

def text (address : Address) : String :=
  match address.payload? with
  | some payload => Base58.encodeCheck payload
  | none => "nulldata"

/-- The address with a version byte and a hash. The test networks share their version bytes, which
are read as those of the first. -/
def ofVersion (version : UInt8) (hash : Digest 20) : Except Error Address :=
  if version = 0x00 then .ok (.pubKeyHash .mainnet hash)
  else if version = 0x05 then .ok (.scriptHash .mainnet hash)
  else if version = 0x6f then .ok (.pubKeyHash .testnet hash)
  else if version = 0xc4 then .ok (.scriptHash .testnet hash)
  else .error (.unknownVersion version)

/-- Reads an address. -/
def parse (text : String) : Except Error Address :=
  match Base58.decodeCheck text with
  | .error error => .error (.base58 error)
  | .ok [] => .error (.invalidLength 0)
  | .ok (version :: hash) =>
    match Digest.ofBytes? 20 hash with
    | none => .error (.invalidLength (hash.length + 1))
    | some hash => ofVersion version hash

end Address

/-- The address an output script pays to. Witness programs have none here. -/
def Script.address (network : Network) (script : Script) : Except Script.Error Address :=
  match script.template? with
  | some (.pubKeyHash hash) => .ok (.pubKeyHash network hash)
  | some (.scriptHash hash) => .ok (.scriptHash network hash)
  | some (.nullData data) => .ok (.nullData data)
  | _ => .error .unrecognizedTemplate

end CoinScript
