import SealedEnvelope.Curve.Point
import SealedEnvelope.Proofs.Curve.Field
import Mathlib.AlgebraicGeometry.EllipticCurve.Affine.Point
import Mathlib.GroupTheory.OrderOfElement
import Mathlib.Tactic.LinearCombination

set_option autoImplicit false

/-! # Multiples of points

`secp256k1` is the curve with the group law that Mathlib proves for it. Jacobian coordinates stand
for its points (`Jacobian.StandsFor`), and their sum and their multiples stand for the sum and the
multiples, so `Point.mul` computes multiples in a commutative group (`mul_pairOf`). The generator
has the prime `order` as its order, and no smaller multiple of it is infinity
(`nsmul_base_ne_zero`). -/

namespace SealedEnvelope.Curve

open WeierstrassCurve (Affine)

/-! ## The curve -/

/-- The curve `y² = x³ + 7`. -/
noncomputable def secp256k1 : Affine Coordinate := ⟨0, 0, 0, 0, 7⟩

theorem nonsingular_iff {x y : Coordinate} :
    secp256k1.Nonsingular x y ↔ (Point.mk x y).OnCurve := by
  have hdisc : secp256k1.Δ ≠ 0 := by
    simp only [WeierstrassCurve.Δ, WeierstrassCurve.b₂, WeierstrassCurve.b₄, WeierstrassCurve.b₆,
      WeierstrassCurve.b₈, secp256k1]
    decide
  rw [← Affine.equation_iff_nonsingular_of_Δ_ne_zero hdisc, Affine.equation_iff, Point.OnCurve,
    cubic]
  simp only [secp256k1]
  constructor
  · intro h
    linear_combination h
  · intro h
    linear_combination h

/-- The pair `(0, 0)`, which stands for infinity, is not on the curve. -/
theorem Point.OnCurve.ne_zero {P : Point} (h : P.OnCurve) : ¬ (P.x = 0 ∧ P.y = 0) := by
  rintro ⟨hx, hy⟩
  rw [Point.OnCurve, hx, hy] at h
  revert h
  decide

theorem negY_secp256k1 (x y : Coordinate) : secp256k1.negY x y = -y := by
  simp [Affine.negY, secp256k1]

theorem addX_secp256k1 (x₁ x₂ l : Coordinate) : secp256k1.addX x₁ x₂ l = l * l - x₁ - x₂ := by
  simp only [Affine.addX, secp256k1]
  ring

theorem addY_secp256k1 (x₁ x₂ y l : Coordinate) :
    secp256k1.addY x₁ x₂ y l = l * (x₁ - (l * l - x₁ - x₂)) - y := by
  rw [Affine.addY, Affine.negAddY, negY_secp256k1, addX_secp256k1]
  ring

theorem ne_negY_secp256k1 {x y : Coordinate} (hy : y ≠ 0) : y ≠ secp256k1.negY x y := by
  rw [negY_secp256k1]
  intro h
  exact mul_ne_zero two_ne_zero_coordinate hy (by linear_combination h)

/-- The tangent's slope is `3x² / 2y`. -/
theorem slope_self_mul (x : Coordinate) {y : Coordinate} (hy : y ≠ 0) :
    secp256k1.slope x x y y * (2 * y) = 3 * x ^ 2 := by
  have hsum : y - -y = 2 * y := by ring
  rw [Affine.slope_of_Y_ne rfl (ne_negY_secp256k1 hy), negY_secp256k1, hsum,
    div_mul_cancel₀ _ (mul_ne_zero two_ne_zero_coordinate hy)]
  simp [secp256k1]

theorem slope_mul {x₁ x₂ : Coordinate} (y₁ y₂ : Coordinate) (hx : x₁ ≠ x₂) :
    secp256k1.slope x₁ x₂ y₁ y₂ * (x₁ - x₂) = y₁ - y₂ := by
  rw [Affine.slope_of_X_ne hx, div_mul_cancel₀ _ (sub_ne_zero.2 hx)]

/-! ## Jacobian coordinates -/

namespace Jacobian

/-- The Jacobian coordinates stand for a point of the curve. -/
def StandsFor (P : Jacobian) : secp256k1.Point → Prop
  | .zero => P.Z = 0
  | .some x y _ => P.Z ≠ 0 ∧ P.X = x * P.Z ^ 2 ∧ P.Y = y * P.Z ^ 3

theorem StandsFor.double {P : Jacobian} {A : secp256k1.Point} (h : P.StandsFor A) :
    P.double.StandsFor (A + A) := by
  obtain ⟨X, Y, Z⟩ := P
  cases A with
  | zero =>
    have hZ : Z = 0 := h
    have hdouble : 2 * Y * Z = 0 := by rw [hZ, mul_zero]
    exact hdouble
  | some x y hxy =>
    obtain ⟨hZ, hX, hY⟩ := h
    dsimp only at hZ hX hY
    -- Where the second coordinate is zero the tangent is vertical, and the double infinity.
    by_cases hy : y = 0
    · have hdouble : 2 * Y * Z = 0 := by
        rw [hY, hy]
        ring
      rw [Affine.Point.add_self_of_Y_eq (by rw [negY_secp256k1, hy, neg_zero])]
      exact hdouble
    · have hY0 : Y ≠ 0 := by
        rw [hY]
        exact mul_ne_zero hy (pow_ne_zero _ hZ)
      have hslope := slope_self_mul x hy
      rw [Affine.Point.add_self_of_Y_ne (ne_negY_secp256k1 hy)]
      refine ⟨mul_ne_zero (mul_ne_zero two_ne_zero_coordinate hY0) hZ, ?_, ?_⟩
      -- All that is needed of the slope is the tangent's equation, so it becomes an unknown `l`.
      · rw [addX_secp256k1]
        simp only [Jacobian.double]
        generalize secp256k1.slope x x y y = l at hslope
        rw [hX, hY]
        linear_combination -(2 * y * l + 3 * x ^ 2) * Z ^ 8 * hslope
      · rw [addY_secp256k1]
        simp only [Jacobian.double]
        generalize secp256k1.slope x x y y = l at hslope
        rw [hX, hY]
        linear_combination
          Z ^ 12 * (3 * x ^ 2 * (2 * y * l + 3 * x ^ 2) - 4 * y ^ 2 * (3 * x - l ^ 2)) * hslope

theorem StandsFor.add {P Q : Jacobian} {A B : secp256k1.Point} (hP : P.StandsFor A)
    (hQ : Q.StandsFor B) : (P.add Q).StandsFor (A + B) := by
  obtain ⟨X₁, Y₁, Z₁⟩ := P
  obtain ⟨X₂, Y₂, Z₂⟩ := Q
  cases A with
  | zero =>
    have hZ : Z₁ = 0 := hP
    have hadd : Jacobian.add ⟨X₁, Y₁, Z₁⟩ ⟨X₂, Y₂, Z₂⟩ = ⟨X₂, Y₂, Z₂⟩ := by
      rw [Jacobian.add, if_pos hZ]
    rw [hadd, ← Affine.Point.zero_def, zero_add]
    exact hQ
  | some x₁ y₁ h₁ =>
    cases B with
    | zero =>
      have hZ : Z₂ = 0 := hQ
      have hadd : Jacobian.add ⟨X₁, Y₁, Z₁⟩ ⟨X₂, Y₂, Z₂⟩ = ⟨X₁, Y₁, Z₁⟩ := by
        rw [Jacobian.add, if_neg hP.1, if_pos hZ]
      rw [hadd]
      exact hP
    | some x₂ y₂ h₂ =>
      have hdouble := hP.double
      obtain ⟨hZ₁, hX₁, hY₁⟩ := hP
      obtain ⟨hZ₂, hX₂, hY₂⟩ := hQ
      dsimp only at hZ₁ hX₁ hY₁ hZ₂ hX₂ hY₂
      -- Brought to a common depth, the two points differ by `h` in `x` and by `r` in `y`.
      have hh : X₂ * (Z₁ * Z₁) - X₁ * (Z₂ * Z₂) = (x₂ - x₁) * (Z₁ * Z₂) ^ 2 := by
        rw [hX₁, hX₂]
        ring
      have hr : Y₂ * Z₁ * (Z₁ * Z₁) - Y₁ * Z₂ * (Z₂ * Z₂) = (y₂ - y₁) * (Z₁ * Z₂) ^ 3 := by
        rw [hY₁, hY₂]
        ring
      have hZ : Z₁ * Z₂ ≠ 0 := mul_ne_zero hZ₁ hZ₂
      rw [Jacobian.add, if_neg hZ₁, if_neg hZ₂]
      dsimp only
      by_cases hx : x₁ = x₂
      -- On one vertical line the points are equal or each other's negative.
      · rw [if_pos (by rw [hh, hx, sub_self, zero_mul])]
        by_cases hy : y₁ = y₂
        · rw [if_pos (by rw [hr, hy, sub_self, zero_mul])]
          subst hx hy
          exact hdouble
        · have hneg : y₁ = secp256k1.negY x₂ y₂ :=
            (Affine.Y_eq_of_X_eq h₁.1 h₂.1 hx).resolve_left hy
          have hr0 : (y₂ - y₁) * (Z₁ * Z₂) ^ 3 ≠ 0 :=
            mul_ne_zero (sub_ne_zero.2 (Ne.symm hy)) (pow_ne_zero _ hZ)
          rw [if_neg (by rwa [hr]), Affine.Point.add_of_Y_eq hx hneg]
          rfl
      · have hh0 : (x₂ - x₁) * (Z₁ * Z₂) ^ 2 ≠ 0 :=
          mul_ne_zero (sub_ne_zero.2 (Ne.symm hx)) (pow_ne_zero _ hZ)
        have hslope := slope_mul y₁ y₂ hx
        rw [if_neg (by rwa [hh]), Affine.Point.add_of_X_ne hx, hh, hr, hX₁, hY₁]
        refine ⟨mul_ne_zero (mul_ne_zero hh0 hZ₁) hZ₂, ?_, ?_⟩
        · rw [addX_secp256k1]
          dsimp only
          generalize secp256k1.slope x₁ x₂ y₁ y₂ = l at hslope
          obtain rfl : y₂ = y₁ - l * (x₁ - x₂) := by linear_combination hslope
          ring
        · rw [addY_secp256k1]
          dsimp only
          generalize secp256k1.slope x₁ x₂ y₁ y₂ = l at hslope
          obtain rfl : y₂ = y₁ - l * (x₁ - x₂) := by linear_combination hslope
          ring

theorem StandsFor.mulBits {P acc : Jacobian} {A : secp256k1.Point} (hP : P.StandsFor A)
    (k bits : Nat) {m : Nat} (hacc : acc.StandsFor (m • A)) :
    (mulBits P k bits acc).StandsFor ((2 ^ bits * m + k % 2 ^ bits) • A) := by
  -- Induction on the bits still to be read; those read so far make up `m`.
  induction bits generalizing acc m with
  | zero =>
    rw [pow_zero, one_mul, Nat.mod_one, Nat.add_zero]
    exact hacc
  | succ bits ih =>
    have htwice : acc.double.StandsFor ((2 * m) • A) := by
      rw [two_mul, add_nsmul]
      exact hacc.double
    rw [Jacobian.mulBits, Nat.mod_pow_succ, Nat.testBit_eq_decide_div_mod_eq]
    rcases Nat.mod_two_eq_zero_or_one (k / 2 ^ bits) with hbit | hbit
    · have hnext := ih htwice
      have hfactor : 2 ^ (bits + 1) * m + (k % 2 ^ bits + 2 ^ bits * 0)
          = 2 ^ bits * (2 * m) + k % 2 ^ bits := by ring
      rw [hbit, hfactor]
      simpa using hnext
    · have hplus : (acc.double.add P).StandsFor ((2 * m + 1) • A) := by
        rw [add_nsmul, one_nsmul]
        exact htwice.add hP
      have hnext := ih hplus
      have hfactor : 2 ^ (bits + 1) * m + (k % 2 ^ bits + 2 ^ bits * 1)
          = 2 ^ bits * (2 * m + 1) + k % 2 ^ bits := by ring
      rw [hbit, hfactor]
      simpa using hnext

theorem StandsFor.mul {P : Jacobian} {A : secp256k1.Point} (hP : P.StandsFor A) {k : Nat}
    (hk : k < 2 ^ 256) : (P.mul k).StandsFor (k • A) := by
  have hzero : infinity.StandsFor (0 • A) := by
    rw [zero_nsmul]
    rfl
  have h := hP.mulBits k 256 hzero
  rwa [Nat.mul_zero, Nat.zero_add, Nat.mod_eq_of_lt hk] at h

end Jacobian

/-! ## Pairs of coordinates -/

/-- The pair of coordinates of a point, `(0, 0)` for infinity. -/
def pairOf : secp256k1.Point → Point
  | .zero => ⟨0, 0⟩
  | .some x y _ => ⟨x, y⟩

theorem onCurve_pairOf {A : secp256k1.Point} (h : A ≠ 0) : (pairOf A).OnCurve := by
  cases A with
  | zero => exact absurd rfl h
  | some x y hxy => exact nonsingular_iff.1 hxy

theorem Jacobian.standsFor_ofPoint (A : secp256k1.Point) :
    (Jacobian.ofPoint (pairOf A)).StandsFor A := by
  cases A with
  | zero => rfl
  | some x y hxy =>
    have hne : ¬ (x = 0 ∧ y = 0) := (nonsingular_iff.1 hxy).ne_zero
    have hof : Jacobian.ofPoint (pairOf (.some x y hxy)) = ⟨x, y, 1⟩ := by
      rw [Jacobian.ofPoint]
      exact if_neg hne
    rw [hof]
    refine ⟨one_ne_zero, ?_, ?_⟩
    · rw [one_pow, mul_one]
    · rw [one_pow, mul_one]

theorem Jacobian.StandsFor.toPoint_eq {P : Jacobian} {A : secp256k1.Point} (h : P.StandsFor A) :
    P.toPoint = pairOf A := by
  cases A with
  | zero =>
    have hZ : P.Z = 0 := h
    rw [Jacobian.toPoint, inverse_eq_inv, hZ, inv_zero]
    simp [pairOf]
  | some x y hxy =>
    obtain ⟨hZ, hX, hY⟩ := h
    have hinv : P.Z * P.Z⁻¹ = 1 := mul_inv_cancel₀ hZ
    rw [Jacobian.toPoint, inverse_eq_inv, hX, hY]
    simp only [pairOf, Point.mk.injEq]
    constructor
    · linear_combination x * (P.Z * P.Z⁻¹ + 1) * hinv
    · linear_combination y * ((P.Z * P.Z⁻¹) ^ 2 + P.Z * P.Z⁻¹ + 1) * hinv

/-- Multiplying the pair of a point gives the pair of its multiple. -/
theorem mul_pairOf (A : secp256k1.Point) {k : Nat} (hk : k < 2 ^ 256) :
    (pairOf A).mul k = pairOf (k • A) :=
  ((Jacobian.standsFor_ofPoint A).mul hk).toPoint_eq

/-! ## The generator -/

theorem onCurve_generator : generator.OnCurve := by decide +kernel

/-- The generator as a point of the curve. -/
noncomputable def base : secp256k1.Point :=
  .some generator.x generator.y (nonsingular_iff.2 onCurve_generator)

theorem pairOf_base : pairOf base = generator := rfl

/-- A multiple whose Jacobian coordinates mark infinity is infinity. -/
theorem nsmul_eq_zero {A : secp256k1.Point} {k : Nat} (hk : k < 2 ^ 256)
    (hZ : ((Jacobian.ofPoint (pairOf A)).mul k).Z = 0) : k • A = 0 := by
  have hmul := (Jacobian.standsFor_ofPoint A).mul hk
  cases h : k • A with
  | zero => rfl
  | some x y hxy =>
    rw [h] at hmul
    exact absurd hZ hmul.1

theorem order_lt : order < 2 ^ 256 := by decide

theorem order_nsmul_base : order • base = 0 :=
  nsmul_eq_zero order_lt (by rw [pairOf_base]; decide +kernel)

theorem addOrderOf_base : addOrderOf base = order :=
  haveI : Fact order.Prime := ⟨prime_order⟩
  addOrderOf_eq_prime order_nsmul_base (by intro h; cases h)

theorem nsmul_base_ne_zero {k : Nat} (hpos : 0 < k) (hlt : k < order) : k • base ≠ 0 := by
  intro h
  have hle := addOrderOf_le_of_nsmul_eq_zero hpos h
  rw [addOrderOf_base] at hle
  omega

end SealedEnvelope.Curve
