import CoinScript.Command

/-!
# Verification flags and limits

Which rules an evaluation enforces, and how much it may use.
-/

namespace CoinScript

/-- A rule that can be switched on. -/
inductive Flag where
  | p2sh
  | strictEnc
  | lowS
  | nullDummy
  | sigPushOnly
  | minimalData
  | discourageUpgradableNops
  | checkLockTimeVerify
  | witness
  deriving DecidableEq, Repr

namespace Flag

/-- All flags, in the order of their bits. -/
def all : List Flag :=
  [.p2sh, .strictEnc, .lowS, .nullDummy, .sigPushOnly, .minimalData, .discourageUpgradableNops,
   .checkLockTimeVerify, .witness]

/-- The place of a flag in a set of flags written as a number. -/
def bit : Flag → Nat
  | .p2sh => 0
  | .strictEnc => 1
  | .lowS => 3
  | .nullDummy => 4
  | .sigPushOnly => 5
  | .minimalData => 6
  | .discourageUpgradableNops => 7
  | .checkLockTimeVerify => 9
  | .witness => 11

def name : Flag → String
  | .p2sh => "P2SH"
  | .strictEnc => "STRICT_ENC"
  | .lowS => "LOW_S"
  | .nullDummy => "NULL_DUMMY"
  | .sigPushOnly => "SIG_PUSH_ONLY"
  | .minimalData => "MINIMAL_DATA"
  | .discourageUpgradableNops => "DISCOURAGE_UPGRADABLE_NOPS"
  | .checkLockTimeVerify => "CHECKLOCKTIMEVERIFY"
  | .witness => "WITNESS"

end Flag

/-- A set of rules. -/
structure Flags where
  /-- A push right before the last `OP_HASH160 hash OP_EQUAL` is a script to run. -/
  p2sh : Bool := false
  /-- Signatures are strict DER with a defined hash type, and keys are compressed or uncompressed. -/
  strictEnc : Bool := false
  /-- Signatures are strict DER and their second number is in the lower half of its range. -/
  lowS : Bool := false
  /-- The element that `OP_CHECKMULTISIG` takes in addition is empty. -/
  nullDummy : Bool := false
  /-- Unlocking scripts only push. -/
  sigPushOnly : Bool := false
  /-- Pushes and numbers have their shortest form. -/
  minimalData : Bool := false
  /-- No-operations kept for upgrades are not executed. -/
  discourageUpgradableNops : Bool := false
  /-- Lock times are compared by `OP_CHECKLOCKTIMEVERIFY`. -/
  checkLockTimeVerify : Bool := false
  /-- Version 0 witness programs are expanded. -/
  witness : Bool := false
  deriving DecidableEq, Repr

namespace Flags

def has (flags : Flags) : Flag → Bool
  | .p2sh => flags.p2sh
  | .strictEnc => flags.strictEnc
  | .lowS => flags.lowS
  | .nullDummy => flags.nullDummy
  | .sigPushOnly => flags.sigPushOnly
  | .minimalData => flags.minimalData
  | .discourageUpgradableNops => flags.discourageUpgradableNops
  | .checkLockTimeVerify => flags.checkLockTimeVerify
  | .witness => flags.witness

/-- The flags whose bits are set in a number; other bits mean nothing. -/
def ofBits (bits : Nat) : Flags where
  p2sh := bits.testBit Flag.p2sh.bit
  strictEnc := bits.testBit Flag.strictEnc.bit
  lowS := bits.testBit Flag.lowS.bit
  nullDummy := bits.testBit Flag.nullDummy.bit
  sigPushOnly := bits.testBit Flag.sigPushOnly.bit
  minimalData := bits.testBit Flag.minimalData.bit
  discourageUpgradableNops := bits.testBit Flag.discourageUpgradableNops.bit
  checkLockTimeVerify := bits.testBit Flag.checkLockTimeVerify.bit
  witness := bits.testBit Flag.witness.bit

/-- The flags that are set, in the order of their bits. -/
def toList (flags : Flags) : List Flag := Flag.all.filter flags.has

/-- The number whose set bits are those of the flags. -/
def toBits (flags : Flags) : Nat :=
  flags.toList.foldl (fun bits flag => bits ||| 1 <<< flag.bit) 0

/-- No rule beyond the basic ones. -/
def none : Flags := {}

/-- What is enforced unless something else is asked for. -/
def standard : Flags := { p2sh := true, witness := true }

end Flags

/-- How much one evaluation may use. -/
structure Limits where
  /-- Elements on both stacks together. -/
  maxStackSize : Nat := 1000
  /-- Opcodes above `OP_16` and keys of `OP_CHECKMULTISIG`. -/
  maxOps : Nat := 201
  /-- Bytes of an element that is pushed. -/
  maxElementSize : Nat := Script.maxElementSize
  /-- Commands that are still to be run. -/
  maxCommands : Nat := 3 * Script.maxScriptSize
  deriving DecidableEq, Repr

end CoinScript
