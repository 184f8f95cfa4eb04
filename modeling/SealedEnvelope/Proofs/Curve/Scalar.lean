import SealedEnvelope.Proofs.Curve.Encoding

set_option autoImplicit false

/-! # Scalars and the generator

The generator has the prime `order` as its order, so a scalar has a multiple of it, and sums,
products and negatives of scalars have the sums, multiples and negatives of their multiples
(`multiple_add`, `nsmul_multiple`, `multiple_neg`). A point and its negative agree in the first
coordinate (`x_pairOf_neg`). -/

namespace SealedEnvelope.Curve

open WeierstrassCurve (Affine)
open scoped Fin.CommRing

/-! ## Sums of points -/

/-- Adding the pairs of two points gives the pair of their sum. -/
theorem add_pairOf (A B : secp256k1.Point) : (pairOf A).add (pairOf B) = pairOf (A + B) :=
  ((Jacobian.standsFor_ofPoint A).add (Jacobian.standsFor_ofPoint B)).toPoint_eq

theorem x_pairOf_neg (A : secp256k1.Point) : (pairOf (-A)).x = (pairOf A).x := by
  cases A with
  | zero => rfl
  | some x y h => rfl

/-! ## Scalars -/

variable (a b : Scalar)

/-- Scalars other than zero have inverses. -/
theorem mul_inverse_scalar {a : Scalar} (ha : a ≠ 0) : a * inverse a = 1 :=
  mul_inverse prime_order (le_of_lt order_lt) ha

/-- The multiple of the generator by a scalar. -/
noncomputable def multiple (a : Scalar) : secp256k1.Point := a.val • base

theorem nsmul_base_eq_iff {m n : Nat} : m • base = n • base ↔ m ≡ n [MOD order] := by
  rw [nsmul_eq_nsmul_iff_modEq, addOrderOf_base]

theorem multiple_ofNat (n : Nat) : multiple (Fin.ofNat order n) = n • base :=
  nsmul_base_eq_iff.2 (Nat.mod_modEq n order)

theorem multiple_add : multiple (a + b) = multiple a + multiple b := by
  rw [multiple, multiple, multiple, ← add_nsmul, nsmul_base_eq_iff, Fin.val_add]
  exact Nat.mod_modEq _ _

theorem nsmul_multiple : a.val • multiple b = multiple (a * b) := by
  rw [multiple, multiple, ← mul_nsmul, nsmul_base_eq_iff, Fin.val_mul, mul_comm]
  exact (Nat.mod_modEq _ _).symm

theorem multiple_neg : multiple (-a) = -multiple a := by
  rw [eq_neg_iff_add_eq_zero, ← multiple_add, neg_add_cancel]
  exact zero_nsmul base

theorem multiple_ne_zero {a : Scalar} (ha : a ≠ 0) : multiple a ≠ 0 :=
  nsmul_base_ne_zero (Nat.pos_of_ne_zero fun h => ha (Fin.val_eq_zero_iff.1 h)) a.isLt

theorem Scalar.val_lt : a.val < 2 ^ 256 := lt_trans a.isLt order_lt

/-- Multiplying the pair of a multiple of the generator multiplies the scalars. -/
theorem mul_pairOf_multiple : (pairOf (multiple b)).mul a.val = pairOf (multiple (a * b)) := by
  rw [mul_pairOf _ (Scalar.val_lt a), nsmul_multiple]

theorem mul_generator : generator.mul a.val = pairOf (multiple a) := by
  rw [← pairOf_base, mul_pairOf _ (Scalar.val_lt a), multiple]

end SealedEnvelope.Curve
