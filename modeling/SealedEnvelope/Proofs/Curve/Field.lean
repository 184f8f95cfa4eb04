import SealedEnvelope.Proofs.Curve.Primality
import Mathlib.FieldTheory.Finite.Basic

set_option autoImplicit false

/-! # The coordinate field

Coordinates form a field: `inverse` inverts (`inverse_eq_inv`), and `sqrt?` finds a root of every
square and of nothing else (`sqrt?_mul_self`, `mul_self_of_sqrt?`). -/

namespace SealedEnvelope.Curve

open scoped Fin.CommRing

/-! ## Powers and inverses -/

theorem val_pow {m : Nat} [NeZero m] (a : Fin m) (e : Nat) : (a ^ e).val = a.val ^ e % m := by
  induction e with
  | zero =>
    rw [pow_zero, pow_zero]
    rfl
  | succ e ih => rw [pow_succ, Fin.val_mul, ih, pow_succ, Nat.mod_mul_mod]

theorem power_eq_pow {m : Nat} [NeZero m] (a : Fin m) {e : Nat} (he : e < 2 ^ 256) :
    power a e = a ^ e := by
  apply Fin.ext
  rw [val_power a he, val_pow]

/-- Modulo a prime, the power by the prime minus two inverts. -/
theorem mul_inverse {p : Nat} [NeZero p] (hp : p.Prime) (hlt : p ≤ 2 ^ 256) {a : Fin p}
    (ha : a ≠ 0) : a * inverse a = 1 := by
  have htwo := hp.two_le
  have hval : a.val ≠ 0 := fun h => ha (Fin.val_eq_zero_iff.1 h)
  have hfermat := Nat.ModEq.pow_totient (Nat.coprime_of_lt_prime hval a.isLt hp).symm
  have hpow : a.val ^ (p - 2) * a.val = a.val ^ p.totient := by
    rw [Nat.totient_prime hp, ← pow_succ]
    congr 1
    omega
  apply Fin.ext
  rw [inverse, Fin.val_mul, val_power a (by omega), Nat.mul_mod_mod, mul_comm, hpow, hfermat]
  rfl

/-! ## Coordinates -/

instance : Nontrivial Coordinate := ⟨0, 1, by decide⟩

noncomputable instance : Field Coordinate :=
  Field.ofIsUnitOrEqZero fun a => by
    by_cases ha : a = 0
    · exact Or.inr ha
    · exact Or.inl (IsUnit.of_mul_eq_one _ (mul_inverse prime_fieldPrime (by decide) ha))

theorem inverse_eq_inv (a : Coordinate) : inverse a = a⁻¹ := by
  by_cases ha : a = 0
  · have hzero : inverse (0 : Coordinate) = 0 := by decide +kernel
    rw [ha, hzero, inv_zero]
  · exact eq_inv_of_mul_eq_one_right (mul_inverse prime_fieldPrime (by decide) ha)

theorem two_ne_zero_coordinate : (2 : Coordinate) ≠ 0 := by decide

theorem pow_fieldPrime (a : Coordinate) : a ^ fieldPrime = a := by
  have h := FiniteField.pow_card a
  rwa [Fintype.card_fin] at h

theorem pow_fieldPrime_sub_one {a : Coordinate} (ha : a ≠ 0) : a ^ (fieldPrime - 1) = 1 := by
  have hcard : Fintype.card Coordinate = fieldPrime := Fintype.card_fin _
  have hfermat := FiniteField.pow_card_sub_one_eq_one a ha
  simpa only [hcard] using hfermat

theorem mul_self_of_sqrt? {a root : Coordinate} (h : sqrt? a = some root) : root * root = a := by
  unfold sqrt? at h
  dsimp only at h
  split at h
  · next hroot =>
    rw [← Option.some.inj h]
    exact hroot
  · cases h

/-- A square has a root, which is one of the two numbers it is the square of. -/
theorem sqrt?_mul_self (y : Coordinate) : sqrt? (y * y) = some y ∨ sqrt? (y * y) = some (-y) := by
  have hexp : (fieldPrime + 1) / 4 < 2 ^ 256 := by decide
  have hsum : 2 * ((fieldPrime + 1) / 4 + (fieldPrime + 1) / 4) = fieldPrime + 1 := by decide
  -- The exponent is a quarter of one more than the prime, so the root squared is `y ^ (p + 1)`.
  have hroot : power (y * y) ((fieldPrime + 1) / 4) * power (y * y) ((fieldPrime + 1) / 4)
      = y * y := by
    rw [power_eq_pow _ hexp, ← pow_add, ← sq, ← pow_mul, hsum, pow_succ, pow_fieldPrime, ← sq]
  have hsqrt : sqrt? (y * y) = some (power (y * y) ((fieldPrime + 1) / 4)) := by
    unfold sqrt?
    dsimp only
    rw [if_pos hroot]
  rcases mul_self_eq_mul_self_iff.1 hroot with h | h
  · exact Or.inl (hsqrt.trans (congrArg some h))
  · exact Or.inr (hsqrt.trans (congrArg some h))

/-- The prime is odd, so a coordinate other than zero and its negative differ in parity. -/
theorem val_neg_mod_two {y : Coordinate} (hy : y ≠ 0) : (-y).val % 2 = 1 - y.val % 2 := by
  have hval : (-y).val = fieldPrime - y.val := by rw [Fin.val_neg, if_neg hy]
  have hlt : y.val < fieldPrime := y.isLt
  have hodd : fieldPrime % 2 = 1 := by decide
  omega

end SealedEnvelope.Curve
