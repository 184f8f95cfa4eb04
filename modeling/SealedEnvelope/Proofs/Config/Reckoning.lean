import SealedEnvelope.Config.Rules
import Mathlib.Tactic.MkIffOfInductiveProp
import Mathlib.Tactic.SplitIfs

set_option autoImplicit false

/-! # Reckoning in 64 bits

The battery reckons step by step and ends at the first number that leaves 64 bits. As sizes are not
negative, a sum leaves them in one of its steps exactly if the whole of it does, so the battery is
told by the exact numbers alone (`Settings.battery_eq`): it lists the broken rules where these fit,
and ends in an overflow where one of them does not. -/

namespace SealedEnvelope.Settings

/-- All reckoned numbers fit in 64 bits. -/
@[mk_iff] structure Reckoned.Fits (n : Reckoned) : Prop where
  keyBits : n.keyBits < UInt64.size
  publicKeyLength : n.publicKeyLength < UInt64.size
  wrappedKeySize : n.wrappedKeySize < UInt64.size
  simpleOverhead : n.simpleOverhead < UInt64.size
  singleOverhead : n.singleOverhead < UInt64.size
  multipleOverhead : n.multipleOverhead < UInt64.size

/-- The overflow that is met first where not all of them fit. -/
def Reckoned.overflow (n : Reckoned) : Overflow :=
  if n.keyBits < UInt64.size then .sum else .product

theorem Reckoned.overflow_eq_sum_iff {n : Reckoned} :
    n.overflow = .sum ↔ n.keyBits < UInt64.size := by
  unfold overflow
  split
  · next h => exact iff_of_true rfl h
  · next h => exact iff_of_false nofun h

theorem Reckoned.overflow_eq_product_iff {n : Reckoned} :
    n.overflow = .product ↔ UInt64.size ≤ n.keyBits := by
  unfold overflow
  split
  · next h => exact iff_of_false nofun (Nat.not_le.2 h)
  · next h => exact iff_of_true rfl (Nat.not_lt.1 h)

instance (n : Reckoned) : Decidable n.Fits := decidable_of_iff' _ n.fits_iff

section Steps

variable {α : Type} {m n : Nat} {next : Nat → Except Overflow α}

theorem times_bind :
    (times m n >>= next) = if m * n < UInt64.size then next (m * n) else .error .product := by
  unfold times
  split <;> rfl

theorem plus_bind :
    (plus m n >>= next) = if m + n < UInt64.size then next (m + n) else .error .sum := by
  unfold plus
  split <;> rfl

end Steps

variable (s : Settings)

/-- What is reckoned in 64 bits is exact, or one of the exact numbers does not fit. -/
theorem reckon_eq :
    s.reckon = if s.exact.Fits then .ok s.exact else .error s.exact.overflow := by
  by_cases hbits : s.cipher.keySize.toNat * 8 < UInt64.size
  · have hsum : s.exact.overflow = .sum := if_pos hbits
    rw [hsum]
    simp only [reckon, times_bind, plus_bind, Reckoned.fits_iff, exact]
    split_ifs <;> first | rfl | omega
  · have hproduct : s.exact.overflow = .product := if_neg hbits
    rw [if_neg fun h => hbits h.keyBits, hproduct, reckon, times_bind, if_neg hbits]

/-- The battery lists the broken rules if all that is reckoned fits. -/
theorem battery_eq :
    s.battery = if s.exact.Fits then .ok s.violations else .error s.exact.overflow := by
  rw [battery, reckon_eq]
  split <;> rfl

variable {s}

theorem battery_eq_ok_iff {violations : List Violation} :
    s.battery = .ok violations ↔ s.exact.Fits ∧ s.violations = violations := by
  rw [battery_eq]
  split <;> simp [*]

theorem battery_eq_error_iff {o : Overflow} :
    s.battery = .error o ↔ ¬s.exact.Fits ∧ s.exact.overflow = o := by
  rw [battery_eq]
  split <;> simp [*]

end SealedEnvelope.Settings
