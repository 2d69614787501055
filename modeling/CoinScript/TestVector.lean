import CoinScript.Eval
import CoinScript.Shorthand

/-!
# Examples with their results

Pairs of scripts with the flags and the result they should have. They run without a witness, and a
checker that rejects everything is enough for them.
-/

namespace CoinScript

/-- An unlocking and a locking script, and what running them should give. -/
structure TestVector where
  scriptSig : List Shorthand
  scriptPubKey : List Shorthand
  flags : Flags
  expected : Except ResultCode Unit

namespace TestVector

/-- The script that pieces spell. Pieces that spell none are a bad opcode. -/
def script (pieces : List Shorthand) : Except ResultCode Script := do
  let words ← (pieces.mapM Shorthand.encode).mapError fun _ => ResultCode.badOpcode
  (Script.parseRaw words.flatten).mapError fun _ => .badOpcode

/-- What a pair of scripts gives, under any way to verify it. -/
def actual (vector : TestVector) (verify : Flags → Script → Script → Except ResultCode Unit) :
    Except ResultCode Unit := do
  let scriptSig ← script vector.scriptSig
  let scriptPubKey ← script vector.scriptPubKey
  verify vector.flags scriptSig scriptPubKey

/-- The result, if it is not the expected one. -/
def mismatch? (vector : TestVector) (verify : Flags → Script → Script → Except ResultCode Unit) :
    Option (Except ResultCode Unit) :=
  let actual := vector.actual verify
  match actual, vector.expected with
  | .ok _, .ok _ => none
  | .error a, .error b => if a = b then none else some actual
  | _, _ => some actual

-- ---------------------------------------------------------------------------
-- The examples
-- ---------------------------------------------------------------------------

/-- The rule on the element left on top. -/
def terminal : List TestVector :=
  [⟨[.num 1], [], .none, .ok ()⟩,
   ⟨[], [.num 1], .none, .ok ()⟩,
   ⟨[], [], .none, .error .evalFalse⟩,
   ⟨[.num 0], [], .none, .error .evalFalse⟩,
   ⟨[.hex "0100"], [], .none, .error .evalFalse⟩,
   ⟨[.hex "0180"], [], .none, .error .evalFalse⟩,
   ⟨[.hex "020080"], [], .none, .ok ()⟩,
   ⟨[.hex "020000"], [], .none, .ok ()⟩,
   ⟨[.hex "028000"], [], .none, .ok ()⟩]

/-- Arithmetic and the stacks. -/
def arithmetic : List TestVector :=
  [⟨[.num 1, .num 2], [.opcode .opAdd, .num 3, .opcode .opEqual], .standard, .ok ()⟩,
   ⟨[.num 2, .num 3],
     [.opcode .opSwap, .opcode .opSub, .num 1, .opcode .opEqual],
     .standard, .ok ()⟩,
   ⟨[.num (-1)], [.opcode .opAbs, .num 1, .opcode .opNumEqual], .standard, .ok ()⟩,
   ⟨[.num 1000], [.num 999, .opcode .opGreaterThan], .standard, .ok ()⟩,
   ⟨[.text "abc"], [.opcode .opSize, .num 3, .opcode .opEqualVerify], .standard, .ok ()⟩,
   ⟨[.num 2], [.num 3, .opcode .opEqualVerify, .num 1], .standard, .error .equalVerify⟩,
   ⟨[.num 2], [.num 3, .opcode .opNumEqualVerify, .num 1], .standard, .error .numEqualVerify⟩,
   ⟨[.num 0], [.opcode .opVerify, .num 1], .standard, .error .verify⟩,
   ⟨[], [.opcode .opDrop], .standard, .error .invalidStackOperation⟩,
   ⟨[.num 1], [.num 5, .opcode .opPick], .standard, .error .invalidStackOperation⟩,
   ⟨[], [.opcode .opFromAltStack], .standard, .error .invalidAltstackOperation⟩,
   ⟨[.num 1], [.opcode .opToAltStack, .opcode .opFromAltStack], .standard, .ok ()⟩,
   ⟨[.hex "050100000000"], [.opcode .op1Add], .standard, .error .scriptNum⟩]

/-- Conditionals, balanced and not. -/
def conditionals : List TestVector :=
  [⟨[.num 1],
     [.opcode .opIf, .num 1, .opcode .opElse, .num 0, .opcode .opEndIf],
     .standard, .ok ()⟩,
   ⟨[.num 0],
     [.opcode .opIf, .num 1, .opcode .opElse, .num 0, .opcode .opEndIf],
     .standard, .error .evalFalse⟩,
   ⟨[.num 0], [.opcode .opNotIf, .num 1, .opcode .opEndIf], .standard, .ok ()⟩,
   ⟨[.num 0], [.opcode .opIf, .opcode .opReturn, .opcode .opEndIf, .num 1], .standard, .ok ()⟩,
   ⟨[.num 1], [.opcode .opIf, .num 1], .standard, .error .unbalancedConditional⟩,
   ⟨[], [.opcode .opEndIf, .num 1], .standard, .error .unbalancedConditional⟩,
   ⟨[], [.opcode .opIf, .opcode .opEndIf, .num 1], .standard, .error .unbalancedConditional⟩,
   ⟨[.num 1], [.opcode .opReturn], .standard, .error .opReturn⟩]

/-- Unknown and disabled opcodes, and pushes that reach past the end. -/
def badOpcodes : List TestVector :=
  [⟨[.num 0],
     [.opcode .opIf, .opcode .opCat, .opcode .opEndIf, .num 1],
     .standard, .error .disabledOpcode⟩,
   ⟨[.num 0],
     [.opcode .opIf, .opcode .opVerIf, .opcode .opEndIf, .num 1],
     .standard, .error .badOpcode⟩,
   ⟨[.num 0],
     [.opcode .opIf, .opcode .opReserved, .opcode .opEndIf, .num 1],
     .standard, .ok ()⟩,
   ⟨[], [.opcode .opReserved], .standard, .error .badOpcode⟩,
   ⟨[.num 1], [.hex "4e00000000"], .standard, .error .badOpcode⟩,
   ⟨[.hex "4c"], [.num 1], .standard, .error .badOpcode⟩,
   ⟨[.hex "0201"], [.num 1], .standard, .error .badOpcode⟩]

/-- The encoding of pushes and numbers. -/
def pushEncoding : List TestVector :=
  [⟨[.hex "0105"], [.num 5, .opcode .opEqual], { minimalData := true }, .error .minimalData⟩,
   ⟨[.hex "0105"], [.num 5, .opcode .opEqual], .none, .ok ()⟩,
   ⟨[.hex "020100"],
     [.opcode .op1Add, .num 2, .opcode .opNumEqual],
     { minimalData := true }, .error .scriptNum⟩,
   ⟨[.hex "020100"], [.opcode .op1Add, .num 2, .opcode .opNumEqual], .none, .ok ()⟩]

/-- No-operations kept for upgrades, and lock times. -/
def upgrades : List TestVector :=
  [⟨[.num 1], [.opcode .opNop1], .standard, .ok ()⟩,
   ⟨[.num 1],
     [.opcode .opNop10],
     { discourageUpgradableNops := true }, .error .discourageUpgradableNops⟩,
   ⟨[.num 1], [.opcode .opCheckLockTimeVerify], .standard, .ok ()⟩,
   ⟨[.num 0],
     [.opcode .opCheckLockTimeVerify],
     { checkLockTimeVerify := true }, .error .unsatisfiedLockTime⟩,
   ⟨[.num (-1)],
     [.opcode .opCheckLockTimeVerify],
     { checkLockTimeVerify := true }, .error .negativeLockTime⟩,
   ⟨[.num 1], [.opcode .opCheckSequenceVerify], .standard, .ok ()⟩]

/-- Signature checks, none of which succeeds. -/
def signatures : List TestVector :=
  [⟨[.num 0, .num 0], [.opcode .opCheckSig, .opcode .opNot], .standard, .ok ()⟩,
   ⟨[.num 0, .num 0],
     [.opcode .opCheckSig, .opcode .opNot],
     { strictEnc := true }, .error .pubKeyType⟩,
   ⟨[.num 0, .num 0], [.opcode .opCheckSigVerify, .num 1], .standard, .error .checkSigVerify⟩,
   ⟨[.hex "023001"], [.num 0, .opcode .opCheckSig], { strictEnc := true }, .error .sigDer⟩,
   ⟨[.num 0], [.num 0, .num 0, .opcode .opCheckMultiSig], .standard, .ok ()⟩,
   ⟨[.num 1],
     [.num 0, .num 0, .opcode .opCheckMultiSig],
     { nullDummy := true }, .error .sigNullDummy⟩,
   ⟨[.num 1], [.num 0, .num 0, .opcode .opCheckMultiSig], .none, .ok ()⟩,
   ⟨[.num 0, .num 0],
     [.num 1, .text "key", .num 1, .opcode .opCheckMultiSigVerify, .num 1],
     .standard, .error .checkMultisigVerify⟩,
   ⟨[], [.num 21, .opcode .opCheckMultiSig], .standard, .error .pubKeyCount⟩,
   ⟨[.num 0], [.num 2, .num 0, .opcode .opCheckMultiSig], .standard, .error .sigCount⟩]

/-- Scripts given by their hash. Without the flag only the hash is compared. -/
def scriptHash : List TestVector :=
  [⟨[.hex "0151"],
     [.opcode .opHash160, .hex "14da1745e9b549bd0bfa1a569971c77eba30cd5a4b", .opcode .opEqual],
     .standard, .ok ()⟩,
   ⟨[.num 2, .num 3, .hex "03935587"],
     [.opcode .opHash160, .hex "149c7d1d4a371634286f4437f7f8a38021ffbb7ca0", .opcode .opEqual],
     .standard, .ok ()⟩,
   ⟨[.num 2, .num 2, .hex "03935587"],
     [.opcode .opHash160, .hex "149c7d1d4a371634286f4437f7f8a38021ffbb7ca0", .opcode .opEqual],
     .standard, .error .evalFalse⟩,
   ⟨[.num 2, .num 2, .hex "03935587"],
     [.opcode .opHash160, .hex "149c7d1d4a371634286f4437f7f8a38021ffbb7ca0", .opcode .opEqual],
     .none, .ok ()⟩,
   ⟨[.hex "0100"],
     [.opcode .opHash160, .hex "149f7fd096d37ed2c0e3f7f0cfc924beef4ffceb68", .opcode .opEqual],
     .standard, .error .evalFalse⟩,
   ⟨[.hex "0151"],
     [.opcode .opHash160, .hex "149f7fd096d37ed2c0e3f7f0cfc924beef4ffceb68", .opcode .opEqual],
     .standard, .error .evalFalse⟩,
   ⟨[.hex "016a"],
     [.opcode .opHash160, .hex "1441c98a140039816273e50db317422c11c2bfcc88", .opcode .opEqual],
     .standard, .error .opReturn⟩,
   ⟨[.hex "014c"],
     [.opcode .opHash160, .hex "14c936b4fc84f2b040357e8d63b0955d996eb79c4f", .opcode .opEqual],
     .standard, .error .unknownError⟩]

/-- Witness programs without a witness. -/
def emptyWitness : List TestVector :=
  [⟨[],
     [.num 0, .hex "144254e2a76ec94641c2d3e4b5528bbb30a350838c"],
     .standard, .error .invalidStackOperation⟩,
   ⟨[], [.num 0, .hex "144254e2a76ec94641c2d3e4b5528bbb30a350838c"], { p2sh := true }, .ok ()⟩,
   ⟨[],
     [.num 0, .hex "204ae81572f06e1b88fd5ced7a1a000945432e83e1551e6f721ee9c00b8cc33260"],
     .standard, .error .witnessProgramWitnessEmpty⟩]

/-- All examples. -/
def all : List TestVector :=
  terminal ++ arithmetic ++ conditionals ++ badOpcodes ++ pushEncoding ++ upgrades ++ signatures ++ scriptHash ++ emptyWitness

end TestVector

end CoinScript
