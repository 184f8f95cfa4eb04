import SealedEnvelope.Key
import SealedEnvelope.Proofs.Curve.Group
import SealedEnvelope.Proofs.Octets
import SealedEnvelope.Proofs.Sequence

set_option autoImplicit false

/-! # The octet forms of points

`Point.Form` lists the octet strings that stand for a point as a public key. Reading accepts exactly
the forms of the points of the curve (`parsePublicKey_eq_ok_iff`), so all forms of a point are
interchangeable and none stands for two points. -/

namespace SealedEnvelope

namespace Curve

/-! ## Coordinates -/

theorem val_lt_pow (x : Coordinate) : x.val < 256 ^ 32 :=
  lt_of_lt_of_le x.isLt (by decide)

theorem Coordinate.ofNat?_eq_some_iff {bytes : Bytes} {x : Coordinate} (h : bytes.length = 32) :
    Coordinate.ofNat? (ofBigEndian bytes) = some x ↔ bytes = bigEndian 32 x.val := by
  constructor
  · intro hx
    simp only [Coordinate.ofNat?, Option.dite_none_right_eq_some, Option.some.injEq] at hx
    obtain ⟨_, rfl⟩ := hx
    rw [← h]
    exact (bigEndian_ofBigEndian bytes).symm
  · rintro rfl
    rw [ofBigEndian_bigEndian (val_lt_pow x), Coordinate.ofNat?, dif_pos x.isLt]

/-! ## The second coordinate -/

/-- Minus seven is not a cube, so no point of the curve lies on the first axis. -/
theorem cubic_ne_zero (x : Coordinate) : cubic x ≠ 0 := by
  intro h
  have hexp : (fieldPrime - 1) / 3 < 2 ^ 256 := by decide
  have hthird : 3 * ((fieldPrime - 1) / 3) = fieldPrime - 1 := by decide
  -- Raised to a third of the group's order, every cube is one.
  have hresidue : power (-7 : Coordinate) ((fieldPrime - 1) / 3) ≠ 1 := by decide +kernel
  have hcube : x ^ 3 = -7 := by
    rw [cubic] at h
    linear_combination h
  have hx : x ≠ 0 := by
    rintro rfl
    revert hcube
    decide
  rw [power_eq_pow _ hexp, ← hcube, ← pow_mul, hthird, pow_fieldPrime_sub_one hx] at hresidue
  exact hresidue rfl

theorem Point.OnCurve.y_ne_zero {P : Point} (h : P.OnCurve) : P.y ≠ 0 := by
  intro hy
  rw [Point.OnCurve, hy, mul_zero] at h
  exact cubic_ne_zero P.x h.symm

/-- Of the two points with a first coordinate, the one whose second has the parity asked for. -/
theorem Point.ofX?_eq_some_iff {x : Coordinate} {odd : Bool} {P : Point} :
    Point.ofX? x odd = some P ↔ P.x = x ∧ P.OnCurve ∧ ((P.y.val % 2 = 1) = odd) := by
  constructor
  · intro h
    rw [Point.ofX?, Option.bind_eq_bind, Option.bind_eq_some_iff] at h
    obtain ⟨y, hy, hP⟩ := h
    have hroot := mul_self_of_sqrt? hy
    have hy0 : y ≠ 0 := by
      rintro rfl
      exact cubic_ne_zero x (by rw [← hroot, mul_zero])
    obtain rfl := Option.some.inj hP
    -- The root and its negative differ in parity, so one of them is as asked for.
    have hneg := val_neg_mod_two hy0
    refine ⟨rfl, ?_, ?_⟩
    · rw [Point.OnCurve]
      split
      · exact hroot
      · rw [← hroot]
        ring
    · dsimp only
      split
      · assumption
      · next hparity =>
        rw [hneg]
        cases odd <;> simp_all
  · rintro ⟨rfl, hcurve, hparity⟩
    have hneg := val_neg_mod_two hcurve.y_ne_zero
    rw [Point.ofX?, ← hcurve]
    rcases sqrt?_mul_self P.y with h | h
    · simp [h, hparity]
    · have hother : ¬ (((-P.y).val % 2 = 1) = odd) := by
        rw [hneg]
        cases odd <;> simp_all
      simp only [h, Option.bind_eq_bind, Option.bind_some, if_neg hother, neg_neg]
      rfl

/-! ## Forms -/

theorem Point.ofCompressed?_eq_some_iff {mark : UInt8} {bytes : Bytes} {P : Point}
    (h : bytes.length = 32) :
    Point.ofCompressed? mark bytes = some P
      ↔ P.OnCurve ∧ bytes = bigEndian 32 P.x.val
        ∧ ((mark = compressedMark ∨ mark = compactMark) ∧ P.y.val % 2 = 0
          ∨ mark = compressedMark + 1 ∧ P.y.val % 2 = 1) := by
  simp only [Point.ofCompressed?, Option.bind_eq_bind, Option.bind_eq_some_iff,
    Coordinate.ofNat?_eq_some_iff h]
  constructor
  · rintro ⟨x, hx, hP⟩
    split_ifs at hP with heven hodd
    · obtain ⟨rfl, hcurve, hparity⟩ := Point.ofX?_eq_some_iff.1 hP
      exact ⟨hcurve, hx, Or.inl ⟨heven, by simpa using hparity⟩⟩
    · obtain ⟨rfl, hcurve, hparity⟩ := Point.ofX?_eq_some_iff.1 hP
      exact ⟨hcurve, hx, Or.inr ⟨hodd, by simpa using hparity⟩⟩
  · rintro ⟨hcurve, hx, ⟨hmark, hparity⟩ | ⟨rfl, hparity⟩⟩
    · refine ⟨P.x, hx, ?_⟩
      rw [if_pos hmark, Point.ofX?_eq_some_iff]
      exact ⟨rfl, hcurve, by simp [hparity]⟩
    · refine ⟨P.x, hx, ?_⟩
      rw [if_neg (by decide), if_pos rfl, Point.ofX?_eq_some_iff]
      exact ⟨rfl, hcurve, by simp [hparity]⟩

theorem Point.ofCoordinates?_eq_some_iff {xy : Bytes} {P : Point} (h : xy.length = 64) :
    Point.ofCoordinates? xy = some P
      ↔ P.OnCurve ∧ xy = bigEndian 32 P.x.val ++ bigEndian 32 P.y.val := by
  have hx : (xy.take 32).length = 32 := by simp [h]
  have hy : (xy.drop 32).length = 32 := by simp [h]
  simp only [Point.ofCoordinates?, Option.bind_eq_bind, Option.bind_eq_some_iff,
    Coordinate.ofNat?_eq_some_iff hx, Coordinate.ofNat?_eq_some_iff hy]
  constructor
  · rintro ⟨x, hx, y, hy, hP⟩
    split_ifs at hP with hcurve
    obtain rfl := Option.some.inj hP
    exact ⟨hcurve, by rw [← hx, ← hy, List.take_append_drop]⟩
  · rintro ⟨hcurve, rfl⟩
    refine ⟨P.x, by simp, P.y, by simp, ?_⟩
    rw [if_pos hcurve]

/-- The octet strings that stand for a point as a public key. -/
inductive Point.Form (P : Point) : Bytes → Prop
  | compressed : Form P P.compressed.bytes
  | compact (heven : P.y.val % 2 = 0) : Form P (compactMark :: bigEndian 32 P.x.val)
  | uncompressed : Form P P.uncompressed.bytes
  | raw : Form P (bigEndian 32 P.x.val ++ bigEndian 32 P.y.val)

/-- In its 33 octets a point has its first coordinate behind a mark that fits the second. -/
theorem Point.form_of_mark {P : Point} {mark : UInt8}
    (h : (mark = compressedMark ∨ mark = compactMark) ∧ P.y.val % 2 = 0
      ∨ mark = compressedMark + 1 ∧ P.y.val % 2 = 1) :
    P.Form (mark :: bigEndian 32 P.x.val) := by
  rcases h with ⟨rfl | rfl, hparity⟩ | ⟨rfl, hparity⟩
  · have hform := Form.compressed (P := P)
    rwa [Point.compressed, if_pos hparity] at hform
  · exact Form.compact hparity
  · have hform := Form.compressed (P := P)
    rwa [Point.compressed, if_neg (by omega)] at hform

end Curve

open Curve (Point)

/-- How a public key is read in each of its lengths. -/
theorem parsePublicKey_cons_eq_ok_iff {mark : UInt8} {rest : Bytes} {P : Point} :
    parsePublicKey (mark :: rest) = .ok P
      ↔ rest.length = 32 ∧ Point.ofCompressed? mark rest = some P
        ∨ rest.length = 64 ∧ mark = Curve.uncompressedMark ∧ Point.ofCoordinates? rest = some P
        ∨ rest.length = 63 ∧ Point.ofCoordinates? (mark :: rest) = some P := by
  simp only [parsePublicKey, compressedKeySize, uncompressedKeySize, rawKeySize, List.length_cons,
    Nat.reduceEqDiff, ne_eq, ite_not]
  split_ifs with hcompressed huncompressed hmark hraw
  · cases Point.ofCompressed? mark rest <;> simp [hcompressed]
  · cases Point.ofCoordinates? rest <;> simp [huncompressed, hmark]
  · simp [huncompressed, hmark]
  · cases Point.ofCoordinates? (mark :: rest) <;> simp [hraw]
  · simp [hcompressed, huncompressed, hraw]

/-- A public key is read exactly if it is a form of a point of the curve. -/
theorem parsePublicKey_eq_ok_iff {bytes : Bytes} {P : Point} :
    parsePublicKey bytes = .ok P ↔ P.OnCurve ∧ P.Form bytes := by
  constructor
  · intro h
    cases bytes with
    | nil => cases h
    | cons mark rest =>
      rcases parsePublicKey_cons_eq_ok_iff.1 h with ⟨hlen, hP⟩ | ⟨hlen, rfl, hP⟩ | ⟨hlen, hP⟩
      · obtain ⟨hcurve, rfl, hmark⟩ := (Point.ofCompressed?_eq_some_iff hlen).1 hP
        exact ⟨hcurve, Point.form_of_mark hmark⟩
      · obtain ⟨hcurve, rfl⟩ := (Point.ofCoordinates?_eq_some_iff hlen).1 hP
        exact ⟨hcurve, .uncompressed⟩
      · obtain ⟨hcurve, hxy⟩ := (Point.ofCoordinates?_eq_some_iff (by simp [hlen])).1 hP
        rw [hxy]
        exact ⟨hcurve, .raw⟩
  · rintro ⟨hcurve, hform⟩
    cases hform with
    | compressed =>
      rw [Point.compressed, parsePublicKey_cons_eq_ok_iff,
        Point.ofCompressed?_eq_some_iff (by simp)]
      refine Or.inl ⟨by simp, hcurve, rfl, ?_⟩
      rcases Nat.mod_two_eq_zero_or_one P.y.val with hparity | hparity
      · exact Or.inl ⟨Or.inl (if_pos hparity), hparity⟩
      · exact Or.inr ⟨if_neg (by omega), hparity⟩
    | compact heven =>
      rw [parsePublicKey_cons_eq_ok_iff, Point.ofCompressed?_eq_some_iff (by simp)]
      exact Or.inl ⟨by simp, hcurve, rfl, Or.inl ⟨Or.inr rfl, heven⟩⟩
    | uncompressed =>
      rw [Point.uncompressed, parsePublicKey_cons_eq_ok_iff,
        Point.ofCoordinates?_eq_some_iff (by simp)]
      exact Or.inr (Or.inl ⟨by simp, rfl, hcurve, rfl⟩)
    | raw =>
      -- Here the first octet of a coordinate stands where the other forms have a mark.
      have hlen : (bigEndian 32 P.x.val ++ bigEndian 32 P.y.val).length = 64 := by simp
      cases hxy : bigEndian 32 P.x.val ++ bigEndian 32 P.y.val with
      | nil =>
        rw [hxy] at hlen
        simp at hlen
      | cons first rest =>
        rw [hxy] at hlen
        rw [parsePublicKey_cons_eq_ok_iff, Point.ofCoordinates?_eq_some_iff hlen]
        exact Or.inr (Or.inr ⟨by simpa using hlen, hcurve, hxy.symm⟩)

theorem normalizePublicKey_eq_ok_iff {bytes : Bytes} {compressed : Octets 33} :
    normalizePublicKey bytes = .ok compressed
      ↔ ∃ P : Point, P.OnCurve ∧ P.Form bytes ∧ compressed = P.compressed := by
  simp only [normalizePublicKey, bind_eq_ok, pure_eq_ok, parsePublicKey_eq_ok_iff, and_assoc,
    @eq_comm _ _ compressed]

end SealedEnvelope
