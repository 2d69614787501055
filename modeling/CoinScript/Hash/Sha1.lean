import CoinScript.Digest
import CoinScript.Hash.Block

/-!
# SHA-1
-/

namespace CoinScript.Hash.Sha1

/-- The five working words. -/
structure State where
  a : UInt32
  b : UInt32
  c : UInt32
  d : UInt32
  e : UInt32

def initial : State := ⟨0x67452301, 0xefcdab89, 0x98badcfe, 0x10325476, 0xc3d2e1f0⟩

/-- What mixes three words, and the constant added, for the rounds of one quarter. -/
structure Phase where
  mix : UInt32 → UInt32 → UInt32 → UInt32
  constant : UInt32

def parity (x y z : UInt32) : UInt32 := x ^^^ y ^^^ z

/-- The phases of the eighty rounds, twenty rounds each. -/
def phases : List Phase :=
  [⟨choose, 0x5a827999⟩, ⟨parity, 0x6ed9eba1⟩, ⟨majority, 0x8f1bbcdc⟩, ⟨parity, 0xca62c1d6⟩].flatMap
    (List.replicate 20)

/-- Computes `count` more words of the message schedule; the words are listed with the latest first. -/
def extend : (count : Nat) → (words : List UInt32) → List UInt32
  | count + 1, words@(_ :: _ :: w3 :: _ :: _ :: _ :: _ :: w8 :: _ :: _ :: _ :: _ :: _ :: w14 :: _
      :: w16 :: _) =>
    extend count (rotateLeft (w3 ^^^ w8 ^^^ w14 ^^^ w16) 1 :: words)
  | _, words => words

/-- The message schedule: the words of the block, and those computed from them, one per round. -/
def schedule (block : List UInt32) : List UInt32 := (extend 64 block.reverse).reverse

def round (s : State) (phase : Phase) (word : UInt32) : State :=
  let t := rotateLeft s.a 5 + phase.mix s.b s.c s.d + s.e + phase.constant + word
  ⟨t, s.a, rotateLeft s.b 30, s.c, s.d⟩

def compress (s : State) (block : List UInt32) : State :=
  let r := (phases.zip (schedule block)).foldl (fun s (phase, word) => round s phase word) s
  ⟨s.a + r.a, s.b + r.b, s.c + r.c, s.d + r.d, s.e + r.e⟩

def State.words (s : State) : List UInt32 := [s.a, s.b, s.c, s.d, s.e]

def digest (message : Bytes) : Digest 20 where
  bytes := ((blocks .bigEndian message).foldl compress initial).words.flatMap ByteOrder.bigEndian.wordBytes
  length_bytes := by simp [State.words]

end CoinScript.Hash.Sha1
