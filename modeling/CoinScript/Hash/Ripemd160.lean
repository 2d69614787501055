import CoinScript.Digest
import CoinScript.Hash.Block

/-!
# RIPEMD-160

Two lines of eighty rounds run over the same block, with their own orders of words, rotations and
constants, and are added together at the end.
-/

namespace CoinScript.Hash.Ripemd160

/-- The five working words. -/
structure State where
  a : UInt32
  b : UInt32
  c : UInt32
  d : UInt32
  e : UInt32

def initial : State := ⟨0x67452301, 0xefcdab89, 0x98badcfe, 0x10325476, 0xc3d2e1f0⟩

/-- What one round of a line does: mix three words, add a constant and a word of the block, rotate. -/
structure Round where
  mix : UInt32 → UInt32 → UInt32 → UInt32
  constant : UInt32
  word : Nat
  rotation : UInt32

def mixers : List (UInt32 → UInt32 → UInt32 → UInt32) :=
  [fun x y z => x ^^^ y ^^^ z,
   fun x y z => (x &&& y) ||| (~~~x &&& z),
   fun x y z => (x ||| ~~~y) ^^^ z,
   fun x y z => (x &&& z) ||| (y &&& ~~~z),
   fun x y z => x ^^^ (y ||| ~~~z)]

def leftWords : List Nat :=
  [0, 1, 2, 3, 4, 5, 6, 7, 8, 9, 10, 11, 12, 13, 14, 15,
   7, 4, 13, 1, 10, 6, 15, 3, 12, 0, 9, 5, 2, 14, 11, 8,
   3, 10, 14, 4, 9, 15, 8, 1, 2, 7, 0, 6, 13, 11, 5, 12,
   1, 9, 11, 10, 0, 8, 12, 4, 13, 3, 7, 15, 14, 5, 6, 2,
   4, 0, 5, 9, 7, 12, 2, 10, 14, 1, 3, 8, 11, 6, 15, 13]

def rightWords : List Nat :=
  [5, 14, 7, 0, 9, 2, 11, 4, 13, 6, 15, 8, 1, 10, 3, 12,
   6, 11, 3, 7, 0, 13, 5, 10, 14, 15, 8, 12, 4, 9, 1, 2,
   15, 5, 1, 3, 7, 14, 6, 9, 11, 8, 12, 2, 10, 0, 4, 13,
   8, 6, 4, 1, 3, 11, 15, 0, 5, 12, 2, 13, 9, 7, 10, 14,
   12, 15, 10, 4, 1, 5, 8, 7, 6, 2, 13, 14, 0, 3, 9, 11]

def leftRotations : List UInt32 :=
  [11, 14, 15, 12, 5, 8, 7, 9, 11, 13, 14, 15, 6, 7, 9, 8,
   7, 6, 8, 13, 11, 9, 7, 15, 7, 12, 15, 9, 11, 7, 13, 12,
   11, 13, 6, 7, 14, 9, 13, 15, 14, 8, 13, 6, 5, 12, 7, 5,
   11, 12, 14, 15, 14, 15, 9, 8, 9, 14, 5, 6, 8, 6, 5, 12,
   9, 15, 5, 11, 6, 8, 13, 12, 5, 12, 13, 14, 11, 8, 5, 6]

def rightRotations : List UInt32 :=
  [8, 9, 9, 11, 13, 15, 15, 5, 7, 7, 8, 11, 14, 14, 12, 6,
   9, 13, 15, 7, 12, 8, 9, 11, 7, 7, 12, 7, 6, 15, 13, 11,
   9, 7, 15, 11, 8, 6, 6, 14, 12, 13, 5, 14, 13, 13, 7, 5,
   15, 5, 8, 11, 14, 14, 6, 14, 6, 9, 12, 9, 12, 5, 15, 8,
   8, 5, 12, 9, 12, 5, 14, 6, 8, 13, 6, 5, 15, 13, 11, 11]

def leftConstants : List UInt32 := [0x00000000, 0x5a827999, 0x6ed9eba1, 0x8f1bbcdc, 0xa953fd4e]
def rightConstants : List UInt32 := [0x50a28be6, 0x5c4dd124, 0x6d703ef3, 0x7a6d76e9, 0x00000000]

/-- The rounds of a line: mixer and constant stay for sixteen rounds. -/
def line (mixers : List (UInt32 → UInt32 → UInt32 → UInt32)) (constants : List UInt32)
    (words : List Nat) (rotations : List UInt32) : List Round :=
  let phases := (mixers.zip constants).flatMap (List.replicate 16)
  (phases.zip (words.zip rotations)).map fun ((mix, constant), (word, rotation)) =>
    ⟨mix, constant, word, rotation⟩

def leftLine : List Round := line mixers leftConstants leftWords leftRotations
def rightLine : List Round := line mixers.reverse rightConstants rightWords rightRotations

def round (block : List UInt32) (s : State) (r : Round) : State :=
  let t := rotateLeft (s.a + r.mix s.b s.c s.d + block.getD r.word 0 + r.constant) r.rotation + s.e
  ⟨s.e, t, s.b, rotateLeft s.c 10, s.d⟩

def compress (s : State) (block : List UInt32) : State :=
  let l := leftLine.foldl (round block) s
  let r := rightLine.foldl (round block) s
  ⟨s.b + l.c + r.d, s.c + l.d + r.e, s.d + l.e + r.a, s.e + l.a + r.b, s.a + l.b + r.c⟩

def State.words (s : State) : List UInt32 := [s.a, s.b, s.c, s.d, s.e]

def digest (message : Bytes) : Digest 20 where
  bytes := ((blocks .littleEndian message).foldl compress initial).words.flatMap
    ByteOrder.littleEndian.wordBytes
  length_bytes := by simp [State.words]

end CoinScript.Hash.Ripemd160
