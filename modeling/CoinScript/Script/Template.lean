import CoinScript.Hash
import CoinScript.Script.Codec

/-!
# Standard scripts

The kinds of output script that are recognized, the data they commit to, and the scripts that are
built from that data.
-/

namespace CoinScript

/-- A kind of standard script with what it commits to. -/
inductive Template where
  /-- Pays to the holder of a public key with this Hash160. -/
  | pubKeyHash (hash : Digest 20)
  /-- Pays to whoever satisfies the redeem script with this Hash160. -/
  | scriptHash (hash : Digest 20)
  /-- Version 0 witness program for a public key with this Hash160. -/
  | witnessPubKeyHash (hash : Digest 20)
  /-- Version 0 witness program for the witness script with this SHA-256. -/
  | witnessScriptHash (hash : Digest 32)
  /-- Carries data and cannot be spent. -/
  | nullData (data : Bytes)
  deriving DecidableEq, Repr

/-- What a version 0 witness program commits to. -/
inductive WitnessProgram where
  /-- The Hash160 of a public key. -/
  | pubKeyHash (hash : Digest 20)
  /-- The SHA-256 of a witness script. -/
  | scriptHash (hash : Digest 32)
  deriving DecidableEq, Repr

/-- The program with the given bytes: its size tells the two kinds apart. -/
def WitnessProgram.ofBytes? (bytes : Bytes) : Option WitnessProgram :=
  match Digest.ofBytes? 20 bytes with
  | some hash => some (.pubKeyHash hash)
  | none => (Digest.ofBytes? 32 bytes).map .scriptHash

def WitnessProgram.bytes : WitnessProgram → Bytes
  | .pubKeyHash hash => hash.bytes
  | .scriptHash hash => hash.bytes

theorem WitnessProgram.bytes_of_ofBytes? {bytes : Bytes} {program : WitnessProgram}
    (h : ofBytes? bytes = some program) : program.bytes = bytes := by
  unfold ofBytes? at h
  split at h
  · rename_i hash hkey
    cases h
    exact (Digest.ofBytes?_eq_some_iff.1 hkey).symm
  · obtain ⟨hash, hscript, rfl⟩ := Option.map_eq_some_iff.1 h
    exact (Digest.ofBytes?_eq_some_iff.1 hscript).symm

theorem WitnessProgram.ofBytes?_pubKeyHash (hash : Digest 20) :
    WitnessProgram.ofBytes? hash.bytes = some (.pubKeyHash hash) := by
  simp [WitnessProgram.ofBytes?]

theorem WitnessProgram.ofBytes?_scriptHash (hash : Digest 32) :
    WitnessProgram.ofBytes? hash.bytes = some (.scriptHash hash) := by
  have hkey : Digest.ofBytes? 20 hash.bytes = none := by simp [Digest.ofBytes?, hash.length_bytes]
  simp [WitnessProgram.ofBytes?, hkey]

def Template.ofProgram : WitnessProgram → Template
  | .pubKeyHash hash => .witnessPubKeyHash hash
  | .scriptHash hash => .witnessScriptHash hash

namespace Script

-- ---------------------------------------------------------------------------
-- Building
-- ---------------------------------------------------------------------------

def p2pkh (hash : Digest 20) : Script :=
  [.ofOpcode .opDup, .ofOpcode .opHash160, .push hash.bytes, .ofOpcode .opEqualVerify,
   .ofOpcode .opCheckSig]

def p2sh (hash : Digest 20) : Script :=
  [.ofOpcode .opHash160, .push hash.bytes, .ofOpcode .opEqual]

def p2wpkh (hash : Digest 20) : Script := [.ofOpcode .op0, .push hash.bytes]

def p2wsh (hash : Digest 32) : Script := [.ofOpcode .op0, .push hash.bytes]

def nullData (data : Bytes) : Script := [.ofOpcode .opReturn, .push data]

/-- Pays to the holder of a public key. -/
def p2pkhOfPubKey (pubKey : Bytes) : Script := p2pkh (hash160 pubKey)

/-- Pays to whoever satisfies a redeem script, which has to have an encoding. -/
def p2shOfRedeem (redeem : Script) : Except Error Script :=
  (encode redeem).map fun body => p2sh (hash160 body)

end Script

/-- The script built for a template. -/
def Template.script : Template → Script
  | .pubKeyHash hash => Script.p2pkh hash
  | .scriptHash hash => Script.p2sh hash
  | .witnessPubKeyHash hash => Script.p2wpkh hash
  | .witnessScriptHash hash => Script.p2wsh hash
  | .nullData data => Script.nullData data

namespace Script

-- ---------------------------------------------------------------------------
-- Recognizing
-- ---------------------------------------------------------------------------

/-- The template of a script, if it is a standard one. -/
def template? : Script → Option Template
  | [.opcode dup, .opcode hash, .push data, .opcode equalVerify, .opcode checkSig] =>
    if dup = Opcode.opDup.byte ∧ hash = Opcode.opHash160.byte
        ∧ equalVerify = Opcode.opEqualVerify.byte ∧ checkSig = Opcode.opCheckSig.byte then
      (Digest.ofBytes? 20 data).map .pubKeyHash
    else none
  | [.opcode hash, .push data, .opcode equal] =>
    if hash = Opcode.opHash160.byte ∧ equal = Opcode.opEqual.byte then
      (Digest.ofBytes? 20 data).map .scriptHash
    else none
  | [first, .push data] =>
    if first.isEmptyPush then (WitnessProgram.ofBytes? data).map .ofProgram
    else if first = .ofOpcode .opReturn then some (.nullData data)
    else none
  | [first, second] =>
    if first = .ofOpcode .opReturn ∧ second.isEmptyPush then some (.nullData []) else none
  | _ => none

def isP2pkh (script : Script) : Bool := script.template? matches some (.pubKeyHash _)

def isP2sh (script : Script) : Bool := script.template? matches some (.scriptHash _)

def isP2wpkh (script : Script) : Bool := script.template? matches some (.witnessPubKeyHash _)

def isP2wsh (script : Script) : Bool := script.template? matches some (.witnessScriptHash _)

def isNullData (script : Script) : Bool := script.template? matches some (.nullData _)

/-- The hash, if the script begins with `OP_HASH160`, a push of 20 bytes and `OP_EQUAL`. -/
def scriptHashCheck? : Script → Option (Digest 20)
  | .opcode hash :: .push data :: .opcode equal :: _ =>
    if hash = Opcode.opHash160.byte ∧ equal = Opcode.opEqual.byte then Digest.ofBytes? 20 data
    else none
  | _ => none

end Script

end CoinScript
