import SealedEnvelope.Curve.Field
import SealedEnvelope.Octets

set_option autoImplicit false

/-! # Points of secp256k1

The curve `y² = x³ + 7`, its group law and the octet forms of its points. A `Point` is a pair of
coordinates; the pair `(0, 0)`, which does not satisfy the equation, stands for the point at
infinity. Sums are reckoned in Jacobian coordinates, where `(X, Y, Z)` is the point
`(X / Z², Y / Z³)` and `Z = 0` marks infinity, and turned back by one inversion. -/

namespace SealedEnvelope.Curve

/-- A pair of coordinates. -/
structure Point where
  x : Coordinate
  y : Coordinate
deriving DecidableEq, Repr

/-- The right-hand side of the curve's equation. -/
def cubic (x : Coordinate) : Coordinate := x * x * x + 7

/-- The pair satisfies the curve's equation. -/
def Point.OnCurve (P : Point) : Prop := P.y * P.y = cubic P.x

instance (P : Point) : Decidable P.OnCurve := inferInstanceAs (Decidable (_ = _))

/-- The generator of the group. -/
def generator : Point :=
  ⟨0x79be667ef9dcbbac55a06295ce870b07029bfcdb2dce28d959f2815b16f81798,
   0x483ada7726a3c4655da4fbfc0e1108a8fd17b448a68554199c47d08ffb10d4b8⟩

/-! ## The group law -/

/-- A point in Jacobian coordinates. -/
structure Jacobian where
  X : Coordinate
  Y : Coordinate
  Z : Coordinate
deriving DecidableEq, Repr

namespace Jacobian

/-- The point at infinity. -/
def infinity : Jacobian := ⟨1, 1, 0⟩

/-- A pair of coordinates, the pair `(0, 0)` as infinity. -/
def ofPoint (P : Point) : Jacobian := if P.x = 0 ∧ P.y = 0 then infinity else ⟨P.x, P.y, 1⟩

/-- The pair of coordinates, `(0, 0)` for infinity. -/
def toPoint (P : Jacobian) : Point :=
  let z := inverse P.Z
  ⟨P.X * z * z, P.Y * z * z * z⟩

/-- The sum of a point with itself. -/
def double (P : Jacobian) : Jacobian :=
  let yy := P.Y * P.Y
  let s := 4 * P.X * yy
  let t := 3 * P.X * P.X
  let x := t * t - 2 * s
  ⟨x, t * (s - x) - 8 * yy * yy, 2 * P.Y * P.Z⟩

/-- The sum of two points. -/
def add (P Q : Jacobian) : Jacobian :=
  if P.Z = 0 then Q
  else if Q.Z = 0 then P
  else
    let pp := P.Z * P.Z
    let qq := Q.Z * Q.Z
    let u := P.X * qq
    let s := P.Y * Q.Z * qq
    let h := Q.X * pp - u
    let r := Q.Y * P.Z * pp - s
    if h = 0 then if r = 0 then double P else infinity
    else
      let hh := h * h
      let hhh := hh * h
      let v := u * hh
      let x := r * r - hhh - 2 * v
      ⟨x, r * (v - x) - s * hhh, h * P.Z * Q.Z⟩

/-- Continues the multiple of `P` whose factor so far gave `acc` with the low `bits` bits of `k`. -/
def mulBits (P : Jacobian) (k : Nat) : (bits : Nat) → (acc : Jacobian) → Jacobian
  | 0, acc => acc
  | bits + 1, acc =>
    let twice := acc.double
    mulBits P k bits (if k.testBit bits then twice.add P else twice)

/-- The `k`-fold sum of a point, for factors below `2²⁵⁶`. -/
def mul (k : Nat) (P : Jacobian) : Jacobian := mulBits P k 256 infinity

end Jacobian

/-- The sum of two points. -/
def Point.add (P Q : Point) : Point :=
  ((Jacobian.ofPoint P).add (Jacobian.ofPoint Q)).toPoint

/-- The `k`-fold sum of a point, for factors below `2²⁵⁶`. -/
def Point.mul (k : Nat) (P : Point) : Point := ((Jacobian.ofPoint P).mul k).toPoint

/-! ## Octet forms -/

/-- Marks a point given by `x` and the parity of `y`; plus one if `y` is odd. -/
def compressedMark : UInt8 := 0x02

/-- Marks a point given by both coordinates. -/
def uncompressedMark : UInt8 := 0x04

/-- Marks a point given by `x` alone, with even `y`. -/
def compactMark : UInt8 := 0x05

/-- The mark of `y`'s parity, then `x`. -/
def Point.compressed (P : Point) : Octets 33 :=
  ⟨(if P.y.val % 2 = 0 then compressedMark else compressedMark + 1) :: bigEndian 32 P.x.val,
   by simp⟩

/-- The mark `0x04`, then both coordinates. -/
def Point.uncompressed (P : Point) : Octets 65 :=
  ⟨uncompressedMark :: (bigEndian 32 P.x.val ++ bigEndian 32 P.y.val), by simp⟩

/-- The point with first coordinate `x` whose second is odd or even as asked, if there is one. -/
def Point.ofX? (x : Coordinate) (odd : Bool) : Option Point := do
  let y ← sqrt? (cubic x)
  return ⟨x, if (y.val % 2 = 1) = odd then y else -y⟩

/-- The point that a mark and 32 octets of `x` denote. -/
def Point.ofCompressed? (mark : UInt8) (x : Bytes) : Option Point := do
  let x ← Coordinate.ofNat? (ofBigEndian x)
  if mark = compressedMark ∨ mark = compactMark then ofX? x false
  else if mark = compressedMark + 1 then ofX? x true
  else none

/-- The point that 32 octets of `x` and 32 octets of `y` denote, if it is on the curve. -/
def Point.ofCoordinates? (xy : Bytes) : Option Point := do
  let x ← Coordinate.ofNat? (ofBigEndian (xy.take 32))
  let y ← Coordinate.ofNat? (ofBigEndian (xy.drop 32))
  if (Point.mk x y).OnCurve then some ⟨x, y⟩ else none

end SealedEnvelope.Curve
