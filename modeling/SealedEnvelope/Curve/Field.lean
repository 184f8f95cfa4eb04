set_option autoImplicit false

/-! # Prime fields

Arithmetic modulo the two primes of secp256k1: the `fieldPrime`, over which points have their
coordinates, and the `order` of the group, modulo which scalars are reckoned. Both are just below
`2²⁵⁶`. Inverses and square roots are powers: the prime minus two, and a quarter of the prime plus
one. -/

namespace SealedEnvelope.Curve

/-- The prime over which the curve is defined, `2²⁵⁶ - 2³² - 977`. -/
def fieldPrime : Nat := 0xfffffffffffffffffffffffffffffffffffffffffffffffffffffffefffffc2f

/-- The number of points of the curve, which is prime. -/
def order : Nat := 0xfffffffffffffffffffffffffffffffebaaedce6af48a03bbfd25e8cd0364141

instance : @NeZero Nat Zero.ofOfNat0 fieldPrime := ⟨by decide⟩

instance : @NeZero Nat Zero.ofOfNat0 order := ⟨by decide⟩

/-- A coordinate of a point. -/
abbrev Coordinate := Fin fieldPrime

/-- A number modulo the order of the group. -/
abbrev Scalar := Fin order

variable {m : Nat}

/-- Continues the power of `a` whose exponent so far gave `acc` with the low `bits` bits of `e`. -/
def powerBits (a : Fin m) (e : Nat) : (bits : Nat) → (acc : Fin m) → Fin m
  | 0, acc => acc
  | bits + 1, acc =>
    let square := acc * acc
    powerBits a e bits (if e.testBit bits then square * a else square)

/-- `a` to the power `e`, for exponents below `2²⁵⁶`. -/
def power (a : Fin m) (e : Nat) : Fin m :=
  powerBits a e 256 ⟨1 % m, Nat.mod_lt 1 a.pos⟩

/-- The inverse modulo a prime; zero for zero. -/
def inverse (a : Fin m) : Fin m := power a (m - 2)

/-- A square root, if there is one. -/
def sqrt? (a : Coordinate) : Option Coordinate :=
  let root := power a ((fieldPrime + 1) / 4)
  if root * root = a then some root else none

/-- The number as a coordinate, if it is below the prime. -/
def Coordinate.ofNat? (n : Nat) : Option Coordinate :=
  if h : n < fieldPrime then some ⟨n, h⟩ else none

end SealedEnvelope.Curve
