import CoinScript.Bytes

/-!
# Stack elements

Readings of the byte strings on the stack as truth values, and which of them have an opcode of their
own to push them.
-/

namespace CoinScript.Element

/-- What opcodes leave for true and false. -/
def ofBool : Bool → Bytes
  | true => [0x01]
  | false => []

/-- Any byte other than zero makes an element true, except that a last byte `80` after zeros is a
negative zero. This is the reading of the opcodes. -/
def isTrue : Bytes → Bool
  | [] => false
  | [last] => last != 0x00 && last != 0x80
  | b :: rest => b != 0x00 || isTrue rest

/-- Whether the element left on top at the end counts as success: all but the empty string, a zero
byte alone and a negative zero alone. -/
def isSuccess (top : Bytes) : Bool := top != [] && top != [0x00] && top != [0x80]

/-- Whether a push is needed for an element, there being no opcode that pushes it. -/
def needsPush : Bytes → Bool
  | [] => false
  | [b] => !(0x01 ≤ b && b ≤ 0x10) && b != 0x81
  | _ => true

end CoinScript.Element
