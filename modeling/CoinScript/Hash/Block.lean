import CoinScript.Bytes

/-!
# Blocks and words

The three hash functions of this library read a message the same way: a set bit, zeros and the
length in bits are appended so that the whole is a multiple of 64 bytes, and every block of 64 bytes
is taken as sixteen 32-bit words. They differ in the order of the bytes within a word.
-/

namespace CoinScript.Hash

/-- Which byte of a word comes first. -/
inductive ByteOrder where
  | bigEndian
  | littleEndian
  deriving DecidableEq, Repr

namespace ByteOrder

def bytes (order : ByteOrder) (width n : Nat) : Bytes :=
  match order with
  | .bigEndian => Bytes.ofNatBE width n
  | .littleEndian => Bytes.ofNatLE width n

/-- The word of four bytes. -/
def word (order : ByteOrder) (a b c d : UInt8) : UInt32 :=
  match order with
  | .bigEndian => a.toUInt32 <<< 24 ||| b.toUInt32 <<< 16 ||| c.toUInt32 <<< 8 ||| d.toUInt32
  | .littleEndian => a.toUInt32 ||| b.toUInt32 <<< 8 ||| c.toUInt32 <<< 16 ||| d.toUInt32 <<< 24

/-- The words of a byte string, without what is left over at its end. -/
def words (order : ByteOrder) : Bytes → List UInt32
  | a :: b :: c :: d :: rest => order.word a b c d :: words order rest
  | _ => []

def wordBytes (order : ByteOrder) (word : UInt32) : Bytes := order.bytes 4 word.toNat

@[simp] theorem length_wordBytes (order : ByteOrder) (word : UInt32) :
    (order.wordBytes word).length = 4 := by
  cases order <;> simp [wordBytes, bytes]

end ByteOrder

/-- The first `count` pieces of `size` elements each. -/
def pieces {α : Type} (size : Nat) : (count : Nat) → List α → List (List α)
  | 0, _ => []
  | count + 1, items => items.take size :: pieces size count (items.drop size)

/-- The message, the byte `80`, as many zeros as needed and the length in bits, in eight bytes. -/
def pad (order : ByteOrder) (message : Bytes) : Bytes :=
  message ++ 0x80 :: List.replicate ((119 - message.length % 64) % 64) 0
    ++ order.bytes 8 (8 * message.length)

/-- The padded message as blocks of sixteen words. -/
def blocks (order : ByteOrder) (message : Bytes) : List (List UInt32) :=
  let padded := pad order message
  (pieces 64 (padded.length / 64) padded).map order.words

/-- The bits of a word moved `n` places up, those that leave at the top coming back at the bottom. -/
def rotateLeft (x : UInt32) (n : UInt32) : UInt32 := (x <<< n) ||| (x >>> (32 - n))

/-- The bits of a word moved `n` places down, those that leave at the bottom coming back at the top. -/
def rotateRight (x : UInt32) (n : UInt32) : UInt32 := (x >>> n) ||| (x <<< (32 - n))

/-- Bits of `y` where `x` is set and of `z` elsewhere. -/
def choose (x y z : UInt32) : UInt32 := (x &&& y) ^^^ (~~~x &&& z)

/-- Bits that are set in at least two of the words. -/
def majority (x y z : UInt32) : UInt32 := (x &&& y) ^^^ (x &&& z) ^^^ (y &&& z)

end CoinScript.Hash
