import SealedEnvelope.Curve.Field
import Mathlib.NumberTheory.LucasPrimality
import Mathlib.Tactic.NormNum.Prime
import Mathlib.Tactic.Ring

set_option autoImplicit false

/-! # The primes of secp256k1

`power` is modular exponentiation (`val_power`), so Lucas's test can be run with it: `p` is prime if
some number has order `p - 1` modulo `p`, and that needs only the prime factors of `p - 1`. A table
lists such a number for the two primes of the curve and for every large prime on the way down; the
small ones are left to trial division. -/

namespace SealedEnvelope.Curve

/-! ## Exponentiation -/

theorem val_powerBits {m : Nat} (a : Fin m) (e bits : Nat) (acc : Fin m) :
    (powerBits a e bits acc).val = acc.val ^ 2 ^ bits * a.val ^ (e % 2 ^ bits) % m := by
  induction bits generalizing acc with
  | zero => simp [powerBits, Nat.mod_one, Nat.mod_eq_of_lt acc.isLt]
  | succ bits ih =>
    have hsquare : acc.val * acc.val % m ≡ acc.val ^ 2 [MOD m] := by
      rw [sq]
      exact Nat.mod_modEq _ _
    rw [powerBits, ih, Nat.mod_pow_succ, pow_succ 2 bits, Nat.testBit_eq_decide_div_mod_eq]
    -- The bit that is looked at either multiplies by `a` or leaves the square as it is.
    rcases Nat.mod_two_eq_zero_or_one (e / 2 ^ bits) with hbit | hbit
    · rw [hbit]
      have hpower := (hsquare.pow (2 ^ bits)).mul_right (a.val ^ (e % 2 ^ bits))
      calc _ = (acc.val ^ 2) ^ 2 ^ bits * a.val ^ (e % 2 ^ bits) % m := by
            simpa [Nat.ModEq, Fin.val_mul] using hpower
        _ = _ := by congr 1; ring
    · rw [hbit]
      have hnext : acc.val * acc.val % m * a.val % m ≡ acc.val ^ 2 * a.val [MOD m] :=
        (Nat.mod_modEq _ _).trans (hsquare.mul_right _)
      have hpower := (hnext.pow (2 ^ bits)).mul_right (a.val ^ (e % 2 ^ bits))
      calc _ = (acc.val ^ 2 * a.val) ^ 2 ^ bits * a.val ^ (e % 2 ^ bits) % m := by
            simpa [Nat.ModEq, Fin.val_mul] using hpower
        _ = _ := by congr 1; ring

theorem val_powerBits_one {m : Nat} (a : Fin m) (e bits : Nat) :
    (powerBits a e bits ⟨1 % m, Nat.mod_lt 1 a.pos⟩).val = a.val ^ (e % 2 ^ bits) % m := by
  have hone := ((Nat.mod_modEq 1 m).pow (2 ^ bits)).mul_right (a.val ^ (e % 2 ^ bits))
  rw [one_pow, one_mul] at hone
  rw [val_powerBits]
  exact hone

/-- For exponents of at most 256 bits, `power` is the power modulo `m`. -/
theorem val_power {m : Nat} (a : Fin m) {e : Nat} (he : e < 2 ^ 256) :
    (power a e).val = a.val ^ e % m := by
  rw [power, val_powerBits_one, Nat.mod_eq_of_lt he]

/-! ## Lucas's test -/

/-- A number whose order modulo `prime` is `prime - 1`, and the prime factors of `prime - 1`. -/
structure PrimalityProof where
  prime : Nat
  root : Fin prime
  factors : List Nat

/-- Whether the test passes, with all factors among the primes known so far. -/
def PrimalityProof.passes (known : List Nat) (c : PrimalityProof) : Bool :=
  1 < c.prime && c.prime ≤ 2 ^ 256 && c.factors.prod = c.prime - 1
    && (power c.root (c.prime - 1)).val = 1
    && c.factors.all fun q => q ∈ known && (power c.root ((c.prime - 1) / q)).val ≠ 1

theorem cast_pow_eq_one_iff {p : Nat} (hp : 1 < p) (a n : Nat) :
    (a : ZMod p) ^ n = 1 ↔ a ^ n % p = 1 := by
  rw [← Nat.cast_pow, ← Nat.cast_one, ZMod.natCast_eq_natCast_iff', Nat.mod_eq_of_lt hp]

theorem PrimalityProof.prime_of_passes {known : List Nat} {c : PrimalityProof}
    (hknown : ∀ q ∈ known, q.Prime) (h : c.passes known = true) : c.prime.Prime := by
  simp only [passes, Bool.and_eq_true, decide_eq_true_eq, List.all_eq_true] at h
  obtain ⟨⟨⟨⟨hgt, hle⟩, hprod⟩, hone⟩, hfactors⟩ := h
  have hfits : ∀ n, n ≤ c.prime - 1 → n < 2 ^ 256 := fun n hn => by omega
  refine lucas_primality c.prime (c.root.val : ZMod c.prime) ?_ ?_
  · rw [cast_pow_eq_one_iff hgt, ← val_power c.root (hfits _ le_rfl), hone]
  · intro q hq hdvd
    -- A prime that divides the product is one of the factors.
    rw [← hprod] at hdvd
    obtain ⟨f, hf, hqf⟩ := (Prime.dvd_prod_iff hq.prime).1 hdvd
    obtain ⟨hmem, hne⟩ := hfactors f hf
    obtain rfl := (Nat.prime_dvd_prime_iff_eq hq (hknown f hmem)).1 hqf
    rw [ne_eq, cast_pow_eq_one_iff hgt, ← val_power c.root (hfits _ (Nat.div_le_self _ _))]
    exact hne

/-- Whether all tests of a table pass, one after the other. -/
def allPass (known : List Nat) : List PrimalityProof → Bool
  | [] => true
  | c :: rest => c.passes known && allPass (c.prime :: known) rest

theorem prime_of_allPass {known : List Nat} {table : List PrimalityProof}
    (hknown : ∀ q ∈ known, q.Prime) (h : allPass known table = true) :
    ∀ c ∈ table, c.prime.Prime := by
  induction table generalizing known with
  | nil => simp
  | cons c rest ih =>
    rw [allPass, Bool.and_eq_true] at h
    have hc := c.prime_of_passes hknown h.1
    have hnext : ∀ q ∈ c.prime :: known, q.Prime := by
      intro q hq
      rcases List.mem_cons.1 hq with rfl | hq
      · exact hc
      · exact hknown q hq
    intro d hd
    rcases List.mem_cons.1 hd with rfl | hd
    · exact hc
    · exact ih hnext h.2 d hd

/-! ## The table -/

/-- The small primes on the way down. -/
def smallPrimes : List Nat :=
  [2, 3, 5, 7, 11, 17, 19, 29, 31, 41, 53, 59, 97, 109, 113, 149, 293, 461, 631, 797, 971, 1373,
   1627, 1871, 2011, 2621, 2657, 2731, 4051, 4423, 5323, 7723, 9349, 13441, 16699, 20113, 24809,
   28181, 41201, 85831, 96557]

/-- The large primes on the way down, and the two of the curve. -/
def largePrimes : List PrimalityProof :=
  [⟨13331831, ⟨13, by decide⟩, [2, 5, 971, 1373]⟩,
   ⟨173378833005251801, ⟨6, by decide⟩, [2, 2, 2, 5, 5, 2621, 24809, 13331831]⟩,
   ⟨22149492674086928081353, ⟨5, by decide⟩, [2, 2, 2, 3, 5323, 173378833005251801]⟩,
   ⟨132896956044521568488119, ⟨6, by decide⟩, [2, 3, 22149492674086928081353]⟩,
   ⟨1206781, ⟨10, by decide⟩, [2, 2, 3, 5, 20113]⟩,
   ⟨7240687, ⟨3, by decide⟩, [2, 3, 1206781]⟩,
   ⟨107590001, ⟨3, by decide⟩, [2, 2, 2, 2, 5, 5, 5, 5, 7, 29, 53]⟩,
   ⟨255515944373312847190720520512484175977, ⟨3, by decide⟩,
     [2, 2, 2, 7, 7, 11, 1627, 2657, 4423, 41201, 96557, 7240687, 107590001]⟩,
   ⟨205115282021455665897114700593932402728804164701536103180137503955397371, ⟨10, by decide⟩,
     [2, 3, 5, 29, 29, 31, 7723, 132896956044521568488119,
      255515944373312847190720520512484175977]⟩,
   ⟨fieldPrime, ⟨3, by decide⟩,
     [2, 3, 7, 13441, 205115282021455665897114700593932402728804164701536103180137503955397371]⟩,
   ⟨4681609, ⟨23, by decide⟩, [2, 2, 2, 3, 97, 2011]⟩,
   ⟨107361793816595537, ⟨3, by decide⟩, [2, 2, 2, 2, 16699, 85831, 4681609]⟩,
   ⟨120233, ⟨3, by decide⟩, [2, 2, 2, 7, 19, 113]⟩,
   ⟨44706919, ⟨6, by decide⟩, [2, 3, 797, 9349]⟩,
   ⟨174723607534414371449, ⟨3, by decide⟩, [2, 2, 2, 17, 59, 4051, 120233, 44706919]⟩,
   ⟨305873, ⟨3, by decide⟩, [2, 2, 2, 2, 7, 2731]⟩,
   ⟨545358713, ⟨5, by decide⟩, [2, 2, 2, 41, 59, 28181]⟩,
   ⟨1627771, ⟨3, by decide⟩, [2, 3, 5, 29, 1871]⟩,
   ⟨297159362677, ⟨2, by decide⟩, [2, 2, 3, 3, 11, 461, 1627771]⟩,
   ⟨29047611873442575647497758179, ⟨2, by decide⟩, [2, 293, 305873, 545358713, 297159362677]⟩,
   ⟨341948486974166000522343609283189, ⟨2, by decide⟩,
     [2, 2, 3, 3, 3, 109, 29047611873442575647497758179]⟩,
   ⟨order, ⟨7, by decide⟩,
     [2, 2, 2, 2, 2, 2, 3, 149, 631, 107361793816595537, 174723607534414371449,
      341948486974166000522343609283189]⟩]

theorem prime_of_mem_smallPrimes : ∀ q ∈ smallPrimes, q.Prime := by
  norm_num [smallPrimes]

theorem prime_of_mem_largePrimes {p : Nat} (h : p ∈ largePrimes.map PrimalityProof.prime) :
    p.Prime := by
  obtain ⟨c, hc, rfl⟩ := List.mem_map.1 h
  exact prime_of_allPass prime_of_mem_smallPrimes (by decide +kernel) c hc

theorem prime_fieldPrime : Nat.Prime fieldPrime :=
  prime_of_mem_largePrimes (by decide)

theorem prime_order : Nat.Prime order :=
  prime_of_mem_largePrimes (by decide)

end SealedEnvelope.Curve
