import CoinScript.Hex
import CoinScript.Opcode
import CoinScript.ScriptNum

/-!
# Shorthand for script bodies

Pieces of a body as they are written by hand, right or wrong: opcodes, bytes as they are, and pushes
in their shortest form.
-/

namespace CoinScript

inductive Shorthand where
  | opcode (op : Opcode)
  /-- Bytes in hexadecimal, taken as they are. -/
  | hex (digits : String)
  /-- A push of the bytes of a text. -/
  | text (content : String)
  /-- A push of a number. -/
  | num (n : Int)
  deriving DecidableEq, Repr

namespace Shorthand

/-- The bytes in front of the data of a push. -/
def pushHeader (size : Nat) : Bytes :=
  if size ≤ 0x4b then [UInt8.ofNat size]
  else if size ≤ 0xff then [Opcode.opPushData1.byte, UInt8.ofNat size]
  else Opcode.opPushData2.byte :: Bytes.ofNatLE 2 size

/-- The shortest push of an element: an opcode if there is one for it. -/
def push : Bytes → Bytes
  | [] => [Opcode.op0.byte]
  | [b] =>
    if 0x01 ≤ b ∧ b ≤ 0x10 then [Opcode.op1.byte + b - 1]
    else if b = 0x81 then [Opcode.op1Negate.byte]
    else [0x01, b]
  | data => pushHeader data.length ++ data

/-- The bytes of a piece. -/
def encode : Shorthand → Except Hex.Error Bytes
  | .opcode op => .ok [op.byte]
  | .hex digits => Hex.decode digits
  | .text content => .ok (push content.toByteArray.data.toList)
  | .num n => .ok (push (ScriptNum.encode n))

end Shorthand

end CoinScript
