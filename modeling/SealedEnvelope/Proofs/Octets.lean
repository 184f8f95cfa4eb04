import SealedEnvelope.Octets
import Mathlib.Tactic.Linarith
import Mathlib.Tactic.Ring

set_option autoImplicit false

/-! # Big-endian numbers and masks

A field of `w` octets holds exactly the numbers below `256 ^ w`: `ofBigEndian_bigEndian` and
`bigEndian_ofBigEndian` say that writing and reading such a number undo each other. The blocks of a
string are its first octets and the blocks of the others (`blocks_of_ne_nil`). Masking with
exclusive or twice restores the data (`xorBytes_xorBytes`). -/

namespace SealedEnvelope

/-- What holds of the 256 octets one by one holds of every octet. -/
theorem forall_octet {P : UInt8 → Prop} (h : ∀ n < 256, P (UInt8.ofNat n)) (b : UInt8) : P b := by
  have hb := h b.toNat b.toNat_lt
  rwa [UInt8.ofNat_toNat] at hb

/-! ## Numbers -/

theorem ofBigEndian_foldl (acc : Nat) (bytes : Bytes) :
    bytes.foldl (fun acc b => acc * 256 + b.toNat) acc
      = acc * 256 ^ bytes.length + ofBigEndian bytes := by
  induction bytes generalizing acc with
  | nil => simp [ofBigEndian]
  | cons b rest ih =>
    have hzero := ih (0 * 256 + b.toNat)
    rw [ofBigEndian, List.foldl_cons, List.foldl_cons, ih, hzero, List.length_cons, pow_succ]
    ring

@[simp] theorem ofBigEndian_nil : ofBigEndian [] = 0 := rfl

theorem ofBigEndian_cons (b : UInt8) (bytes : Bytes) :
    ofBigEndian (b :: bytes) = b.toNat * 256 ^ bytes.length + ofBigEndian bytes := by
  rw [ofBigEndian, List.foldl_cons, ofBigEndian_foldl]
  simp

/-- An octet string denotes a number that fits its width. -/
theorem ofBigEndian_lt (bytes : Bytes) : ofBigEndian bytes < 256 ^ bytes.length := by
  induction bytes with
  | nil => simp
  | cons b rest ih =>
    have hb : b.toNat + 1 ≤ 256 := b.toNat_lt
    have hmul : (b.toNat + 1) * 256 ^ rest.length ≤ 256 * 256 ^ rest.length :=
      Nat.mul_le_mul_right _ hb
    rw [ofBigEndian_cons, List.length_cons, pow_succ]
    linarith

theorem toNat_ofNat_shiftRight (w n : Nat) :
    (UInt8.ofNat (n >>> (8 * w))).toNat = n / 256 ^ w % 256 := by
  have hpow : (2 : Nat) ^ (8 * w) = 256 ^ w := by rw [pow_mul]; rfl
  rw [UInt8.toNat_ofNat', Nat.shiftRight_eq_div_pow, hpow]

/-- What `w` octets keep of a number. -/
theorem ofBigEndian_bigEndian_mod (w n : Nat) : ofBigEndian (bigEndian w n) = n % 256 ^ w := by
  induction w with
  | zero => simp [bigEndian, Nat.mod_one]
  | succ w ih =>
    rw [bigEndian, ofBigEndian_cons, length_bigEndian, ih, toNat_ofNat_shiftRight, pow_succ,
      Nat.mod_mul, Nat.mul_comm, Nat.add_comm]

/-- A number that fits its field reads back. -/
theorem ofBigEndian_bigEndian {w n : Nat} (h : n < 256 ^ w) : ofBigEndian (bigEndian w n) = n := by
  rw [ofBigEndian_bigEndian_mod, Nat.mod_eq_of_lt h]

/-- Higher octets of a number leave its lower ones alone. -/
theorem bigEndian_add_mul (w a n : Nat) : bigEndian w (a * 256 ^ w + n) = bigEndian w n := by
  induction w generalizing a with
  | zero => rfl
  | succ w ih =>
    have hsplit : a * 256 ^ (w + 1) + n = a * 256 * 256 ^ w + n := by rw [pow_succ]; ring
    have hpos : 0 < 256 ^ w := Nat.pow_pos (by decide)
    have hhead : (a * 256 ^ (w + 1) + n) / 256 ^ w % 256 = n / 256 ^ w % 256 := by
      rw [hsplit, Nat.add_comm, Nat.add_mul_div_right _ _ hpos, Nat.add_mul_mod_self_right]
    rw [bigEndian, bigEndian]
    congr 1
    · rw [← UInt8.toNat_inj, toNat_ofNat_shiftRight, toNat_ofNat_shiftRight, hhead]
    · rw [hsplit, ih]

/-- An octet string is what its number is written as. -/
theorem bigEndian_ofBigEndian (bytes : Bytes) :
    bigEndian bytes.length (ofBigEndian bytes) = bytes := by
  induction bytes with
  | nil => rfl
  | cons b rest ih =>
    have hpos : 0 < 256 ^ rest.length := Nat.pow_pos (by decide)
    have hhead : (b.toNat * 256 ^ rest.length + ofBigEndian rest) / 256 ^ rest.length % 256
        = b.toNat := by
      rw [Nat.add_comm, Nat.add_mul_div_right _ _ hpos, Nat.div_eq_of_lt (ofBigEndian_lt rest),
        Nat.zero_add, Nat.mod_eq_of_lt b.toNat_lt]
    rw [ofBigEndian_cons, List.length_cons, bigEndian, bigEndian_add_mul, ih]
    congr 1
    rw [← UInt8.toNat_inj, toNat_ofNat_shiftRight, hhead]

/-- Different numbers within a width are written differently. -/
theorem bigEndian_inj {w a b : Nat} (ha : a < 256 ^ w) (hb : b < 256 ^ w)
    (h : bigEndian w a = bigEndian w b) : a = b := by
  rw [← ofBigEndian_bigEndian ha, h, ofBigEndian_bigEndian hb]

/-- Octet strings of one length are told apart by their numbers. -/
theorem ofBigEndian_inj {a b : Bytes} (hlength : a.length = b.length)
    (h : ofBigEndian a = ofBigEndian b) : a = b := by
  rw [← bigEndian_ofBigEndian a, hlength, h, bigEndian_ofBigEndian]

namespace Octets

variable {n : Nat}

@[simp] theorem bytes_ofNat (n k : Nat) : (Octets.ofNat n k).bytes = bigEndian n k := rfl

theorem toNat_lt (a : Octets n) : a.toNat < 256 ^ n := by
  have h := ofBigEndian_lt a.bytes
  rwa [a.length_eq] at h

theorem toNat_ofNat {k : Nat} (h : k < 256 ^ n) : (Octets.ofNat n k).toNat = k :=
  ofBigEndian_bigEndian h

theorem ofNat_toNat (a : Octets n) : Octets.ofNat n a.toNat = a := by
  ext1
  have h := bigEndian_ofBigEndian a.bytes
  rwa [a.length_eq] at h

/-- A string with enough octets starts with a field. -/
theorem exists_append {bytes : Bytes} (h : n ≤ bytes.length) :
    ∃ (a : Octets n) (rest : Bytes), bytes = a.bytes ++ rest :=
  ⟨⟨bytes.take n, List.length_take_of_le h⟩, bytes.drop n, (List.take_append_drop n bytes).symm⟩

end Octets

/-! ## Blocks -/

section Blocks

variable {α : Type} {n : Nat}

@[simp] theorem blocks_nil : blocks n ([] : List α) = [] := rfl

/-- The bound on the number of pieces is no restriction as long as it is not below the length. -/
theorem blocksUpTo_eq (hn : 0 < n) {fuel fuel' : Nat} {l : List α} (h : l.length ≤ fuel)
    (h' : l.length ≤ fuel') : blocksUpTo n fuel l = blocksUpTo n fuel' l := by
  induction fuel generalizing fuel' l with
  | zero =>
    obtain rfl := List.length_eq_zero_iff.1 (Nat.le_zero.1 h)
    cases fuel' <;> rfl
  | succ fuel ih =>
    cases fuel' with
    | zero =>
      obtain rfl := List.length_eq_zero_iff.1 (Nat.le_zero.1 h')
      rfl
    | succ fuel' =>
      rw [blocksUpTo, blocksUpTo]
      have hdrop : (l.drop n).length = l.length - n := List.length_drop
      rw [ih (by omega) (by omega : (l.drop n).length ≤ fuel')]

theorem blocks_of_ne_nil (hn : 0 < n) {l : List α} (h : l ≠ []) :
    blocks n l = l.take n :: blocks n (l.drop n) := by
  obtain ⟨a, rest, rfl⟩ := List.exists_cons_of_ne_nil h
  have hdrop : ((a :: rest).drop n).length ≤ rest.length := by
    rw [List.length_drop, List.length_cons]
    omega
  rw [blocks, List.length_cons, blocksUpTo, blocks, blocksUpTo_eq hn hdrop (Nat.le_refl _)]
  rfl

theorem length_le_of_mem_blocks (hn : 0 < n) {l b : List α} (h : b ∈ blocks n l) :
    b.length ≤ n := by
  induction hlen : l.length using Nat.strong_induction_on generalizing l with
  | _ k ih =>
    by_cases hl : l = []
    · rw [hl] at h
      cases h
    · have hpos := List.length_pos_iff.2 hl
      rw [blocks_of_ne_nil hn hl] at h
      rcases List.mem_cons.1 h with rfl | h
      · exact List.length_take_le _ _
      · exact ih (l.drop n).length (by rw [List.length_drop]; omega) h rfl

/-- Blocks of `n` elements are no more than it takes to hold the whole. -/
theorem length_blocks_le (hn : 0 < n) {k : Nat} {l : List α} (h : l.length ≤ k * n) :
    (blocks n l).length ≤ k := by
  induction k generalizing l with
  | zero =>
    obtain rfl := List.length_eq_zero_iff.1 (by omega : l.length = 0)
    rfl
  | succ k ih =>
    by_cases hl : l = []
    · rw [hl, blocks_nil]
      exact Nat.zero_le _
    · rw [blocks_of_ne_nil hn hl, List.length_cons]
      rw [Nat.succ_mul] at h
      exact Nat.succ_le_succ (ih (by rw [List.length_drop]; omega))

end Blocks

/-! ## Masks -/

/-- Masking twice with the same octets restores the data. -/
theorem xorBytes_xorBytes (a b : Bytes) (h : a.length ≤ b.length) :
    xorBytes (xorBytes a b) b = a := by
  induction a generalizing b with
  | nil => simp [xorBytes]
  | cons x xs ih =>
    cases b with
    | nil => simp at h
    | cons y ys =>
      have hrest : xs.length ≤ ys.length := by simpa using h
      have htail := ih ys hrest
      simp only [xorBytes, List.zipWith_cons_cons] at htail ⊢
      rw [htail, UInt8.xor_assoc, UInt8.xor_self, UInt8.xor_zero]

theorem xorBytes_comm (a b : Bytes) : xorBytes a b = xorBytes b a :=
  List.zipWith_comm_of_comm UInt8.xor_comm

/-- Different masks of the data's length give different results. -/
theorem xorBytes_left_cancel {a b c : Bytes} (hb : b.length ≤ a.length) (hc : c.length ≤ a.length)
    (h : xorBytes a b = xorBytes a c) : b = c := by
  rw [xorBytes_comm a b, xorBytes_comm a c] at h
  rw [← xorBytes_xorBytes b a hb, h, xorBytes_xorBytes c a hc]

end SealedEnvelope
