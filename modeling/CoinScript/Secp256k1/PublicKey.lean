import CoinScript.Bytes
import CoinScript.Secp256k1.Curve

/-!
# Public keys as bytes

A tag and one or both coordinates, 32 bytes each, most significant byte first. The tags `02` and `03`
give the parity of the coordinate that is left out; `04` stands before both coordinates, and so do
`06` and `07`, which also have to give the parity.
-/

namespace CoinScript.Secp256k1

/-- The size of a coordinate in bytes. -/
def coordinateSize : Nat := 32

def coordinate? (bytes : Bytes) : Option FieldElement := ofNat? fieldSize bytes.toNatBE

/-- The point a public key denotes. -/
def Point.ofBytes? : Bytes → Option Point
  | [] => none
  | tag :: rest =>
    if rest.length = coordinateSize ∧ (tag = 0x02 ∨ tag = 0x03) then do
      Point.ofX? (← coordinate? rest) (tag = 0x03)
    else if rest.length = 2 * coordinateSize ∧ (tag = 0x04 ∨ tag = 0x06 ∨ tag = 0x07) then do
      let x ← coordinate? (rest.take coordinateSize)
      let y ← coordinate? (rest.drop coordinateSize)
      let p : Point := ⟨x, y⟩
      if !p.isOnCurve then none
      else if tag ≠ 0x04 ∧ p.hasOddY ≠ (tag = 0x07) then none
      else some p
    else none

/-- The compressed form of a public key. -/
def Point.compressed (p : Point) : Bytes :=
  (if p.hasOddY then 0x03 else 0x02) :: Bytes.ofNatBE coordinateSize p.x.val

end CoinScript.Secp256k1
