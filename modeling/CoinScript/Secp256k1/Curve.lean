/-!
# The curve secp256k1

Points with coordinates in a prime field that satisfy `y² = x³ + 7`, and the point at infinity, under
addition. Sums are computed in Jacobian coordinates, which need no division: the affine coordinates
are `x / z²` and `y / z³`.
-/

namespace CoinScript.Secp256k1

/-- The number of elements of the field. -/
def fieldSize : Nat := 0xfffffffffffffffffffffffffffffffffffffffffffffffffffffffefffffc2f

/-- The number of points of the curve. -/
def groupOrder : Nat := 0xfffffffffffffffffffffffffffffffebaaedce6af48a03bbfd25e8cd0364141

/-- A coordinate. -/
abbrev FieldElement := Fin fieldSize

/-- A multiple of a point, or a number of a signature. -/
abbrev Scalar := Fin groupOrder

/-- The element of the field that a number is congruent to. -/
def FieldElement.ofNat (n : Nat) : FieldElement := ⟨n % fieldSize, Nat.mod_lt n (by decide)⟩

/-- The scalar that a number is congruent to. -/
def Scalar.ofNat (n : Nat) : Scalar := ⟨n % groupOrder, Nat.mod_lt n (by decide)⟩

instance (n : Nat) : OfNat FieldElement n := ⟨FieldElement.ofNat n⟩

instance (n : Nat) : OfNat Scalar n := ⟨Scalar.ofNat n⟩

/-- A power, by repeated squaring. -/
def power {m : Nat} [OfNat (Fin m) 1] (b : Fin m) (e : Nat) : Fin m :=
  if e = 0 then 1
  else
    let half := power (b * b) (e / 2)
    if e % 2 = 1 then b * half else half
termination_by e

/-- The inverse modulo a prime; zero for zero. -/
def inverse {m : Nat} [OfNat (Fin m) 1] (b : Fin m) : Fin m := power b (m - 2)

/-- The element of the field or of the scalars that a number denotes, if it is small enough. -/
def ofNat? (m n : Nat) : Option (Fin m) := if h : n < m then some ⟨n, h⟩ else none

-- ---------------------------------------------------------------------------
-- Points
-- ---------------------------------------------------------------------------

/-- A point in affine coordinates, other than the one at infinity. -/
structure Point where
  x : FieldElement
  y : FieldElement
  deriving DecidableEq, Repr

namespace Point

/-- The right-hand side of the equation of the curve. -/
def cubic (x : FieldElement) : FieldElement := x * x * x + 7

def isOnCurve (p : Point) : Bool := p.y * p.y = cubic p.x

def hasOddY (p : Point) : Bool := p.y.val % 2 = 1

/-- The point with a given first coordinate whose second one is odd or even as asked for. -/
def ofX? (x : FieldElement) (odd : Bool) : Option Point :=
  let y := power (cubic x) ((fieldSize + 1) / 4)
  let p : Point := ⟨x, y⟩
  if !p.isOnCurve then none
  else if p.hasOddY = odd then some p
  else some ⟨x, -y⟩

end Point

/-- The point whose multiples are all points. -/
def generator : Point where
  x := 0x79be667ef9dcbbac55a06295ce870b07029bfcdb2dce28d959f2815b16f81798
  y := 0x483ada7726a3c4655da4fbfc0e1108a8fd17b448a68554199c47d08ffb10d4b8

/-- A point in Jacobian coordinates; the one at infinity has `z = 0`. -/
structure Jacobian where
  x : FieldElement
  y : FieldElement
  z : FieldElement
  deriving DecidableEq, Repr

namespace Jacobian

def infinity : Jacobian := ⟨1, 1, 0⟩

def ofPoint (p : Point) : Jacobian := ⟨p.x, p.y, 1⟩

def toPoint? (p : Jacobian) : Option Point :=
  if p.z = 0 then none
  else
    let i := inverse p.z
    let i2 := i * i
    some ⟨p.x * i2, p.y * (i2 * i)⟩

def double (p : Jacobian) : Jacobian :=
  let a := p.x * p.x
  let b := p.y * p.y
  let c := b * b
  let t := (p.x + b) * (p.x + b) - a - c
  let d := t + t
  let e := a + a + a
  let x := e * e - (d + d)
  ⟨x, e * (d - x) - 8 * c, (p.y + p.y) * p.z⟩

def add (p q : Jacobian) : Jacobian :=
  if p.z = 0 then q
  else if q.z = 0 then p
  else
    let pz2 := p.z * p.z
    let qz2 := q.z * q.z
    let u1 := p.x * qz2
    let u2 := q.x * pz2
    let s1 := p.y * (qz2 * q.z)
    let s2 := q.y * (pz2 * p.z)
    if u1 = u2 then
      if s1 = s2 then p.double else infinity
    else
      let h := u2 - u1
      let r := s2 - s1
      let h2 := h * h
      let h3 := h2 * h
      let v := u1 * h2
      let x := r * r - h3 - (v + v)
      ⟨x, r * (v - x) - s1 * h3, h * p.z * q.z⟩

/-- The sum of `k` copies of a point, by repeated doubling. -/
def multiple (k : Nat) (p : Jacobian) : Jacobian :=
  if k = 0 then infinity
  else
    let half := multiple (k / 2) p.double
    if k % 2 = 1 then half.add p else half
termination_by k

/-- The sum of `k` copies of `p` and `l` copies of `q`, doubling both at once; `both` is the sum of one
copy each. -/
def combination (p q both : Jacobian) (k l : Nat) : Jacobian :=
  if k = 0 ∧ l = 0 then infinity
  else
    let twice := (combination p q both (k / 2) (l / 2)).double
    if k % 2 = 1 then
      if l % 2 = 1 then twice.add both else twice.add p
    else if l % 2 = 1 then twice.add q
    else twice
termination_by k + l

end Jacobian

/-- The sum of two multiples of points, unless it is the point at infinity. -/
def linearCombination? (k : Scalar) (p : Point) (l : Scalar) (q : Point) : Option Point :=
  let p := Jacobian.ofPoint p
  let q := Jacobian.ofPoint q
  (Jacobian.combination p q (p.add q) k.val l.val).toPoint?

end CoinScript.Secp256k1
