import CoinScript.Hex
import CoinScript.Opcode

/-!
# Commands

One step of a script: an opcode to execute, or data to push.
-/

namespace CoinScript

inductive Command where
  | opcode (byte : UInt8)
  | push (data : Bytes)
  deriving DecidableEq, Repr

namespace Command

/-- The command that executes a named opcode. -/
def ofOpcode (op : Opcode) : Command := .opcode op.byte

/-- Pushes, and the opcodes up to `OP_16`, which push a constant. `OP_RESERVED` stands among them but
pushes nothing. -/
def isPush : Command → Bool
  | .push _ => true
  | .opcode byte => byte ≤ Opcode.op16.byte && byte != Opcode.opReserved.byte

/-- Whether a command puts the empty element on the stack: `OP_0`, or the push of no data. -/
def isEmptyPush : Command → Bool
  | .push data => data.isEmpty
  | .opcode byte => byte == Opcode.op0.byte

/-- The data of a push. -/
def data? : Command → Option Bytes
  | .push data => some data
  | .opcode _ => none

/-- The assembly text: a mnemonic, or the data in hexadecimal. The push of no data is written like
the opcode it is encoded as. -/
def text : Command → String
  | .opcode byte => Opcode.mnemonicOf byte
  | .push [] => "OP_0"
  | .push data => Hex.encode data

end Command

/-- A sequence of commands. Running one script after another is running their concatenation. -/
abbrev Script := List Command

namespace Script

/-- The largest element a push can carry, in bytes. -/
def maxElementSize : Nat := 520

/-- The largest script, in bytes. -/
def maxScriptSize : Nat := 10000

/-- The assembly text of the commands, separated by blanks. -/
def asm (script : Script) : String := " ".intercalate (script.map Command.text)

/-- Whether every command only pushes. -/
def isPushOnly (script : Script) : Bool := script.all Command.isPush

end Script

end CoinScript
