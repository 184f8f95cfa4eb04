set_option autoImplicit false

/-! # Octet strings

Everything the library reads or writes is an octet string. `Bytes` is one of any length and
`Octets n` one of exactly `n`, so that a fixed-width field of a header cannot hold anything else.
Numbers are written big-endian: `bigEndian w n` gives the low `w` octets of `n`, and `ofBigEndian`
reads them back. `blocks n` cuts a string into pieces of `n` octets, the last one possibly shorter;
joining the pieces gives the string back (`flatten_blocks`). -/

namespace SealedEnvelope

/-- An octet string of any length. -/
abbrev Bytes := List UInt8

/-- An octet string of exactly `n` octets. -/
structure Octets (n : Nat) where
  bytes : Bytes
  length_eq : bytes.length = n
deriving DecidableEq, Repr

namespace Octets

variable {n : Nat}

@[ext] theorem ext {a b : Octets n} (h : a.bytes = b.bytes) : a = b := by
  cases a; cases b; simp_all

@[simp] theorem length_bytes (a : Octets n) : a.bytes.length = n := a.length_eq

/-- The octet string as a field of `n` octets, if it has that length. -/
def ofBytes? (n : Nat) (bytes : Bytes) : Option (Octets n) :=
  if h : bytes.length = n then some ⟨bytes, h⟩ else none

@[simp] theorem ofBytes?_bytes (a : Octets n) : ofBytes? n a.bytes = some a := by
  simp [ofBytes?]

theorem ofBytes?_eq_some_iff {bytes : Bytes} {a : Octets n} :
    ofBytes? n bytes = some a ↔ bytes = a.bytes := by
  constructor
  · intro h
    simp only [ofBytes?, Option.dite_none_right_eq_some, Option.some.injEq] at h
    obtain ⟨_, rfl⟩ := h
    rfl
  · rintro rfl
    simp

/-- The first `n` octets and what follows them, if there are that many. -/
def split? (n : Nat) (bytes : Bytes) : Option (Octets n × Bytes) :=
  if h : n ≤ bytes.length then some (⟨bytes.take n, by simp [h]⟩, bytes.drop n) else none

theorem split?_eq_some_iff {bytes rest : Bytes} {a : Octets n} :
    split? n bytes = some (a, rest) ↔ bytes = a.bytes ++ rest := by
  constructor
  · intro h
    simp only [split?, Option.dite_none_right_eq_some, Option.some.injEq, Prod.mk.injEq] at h
    obtain ⟨_, rfl, rfl⟩ := h
    simp
  · rintro rfl
    have h : n ≤ (a.bytes ++ rest).length := by simp
    rw [split?, dif_pos h]
    congr 2
    · ext1
      simp
    · simp

/-- `n` zero octets. -/
def zero (n : Nat) : Octets n := ⟨List.replicate n 0, by simp⟩

end Octets

/-! ## Big-endian numbers -/

/-- The low `width` octets of `n`, most significant first. -/
def bigEndian : (width : Nat) → (n : Nat) → Bytes
  | 0, _ => []
  | w + 1, n => UInt8.ofNat (n >>> (8 * w)) :: bigEndian w n

/-- The number that an octet string denotes, most significant octet first. -/
def ofBigEndian (bytes : Bytes) : Nat :=
  bytes.foldl (fun acc b => acc * 256 + b.toNat) 0

@[simp] theorem length_bigEndian (w n : Nat) : (bigEndian w n).length = w := by
  induction w with
  | zero => rfl
  | succ w ih => simp [bigEndian, ih]

/-- A number as a field of `n` octets. -/
def Octets.ofNat (n k : Nat) : Octets n := ⟨bigEndian n k, by simp⟩

/-- The number that a field denotes. -/
def Octets.toNat {n : Nat} (a : Octets n) : Nat := ofBigEndian a.bytes

/-! ## Exclusive or -/

/-- Octet-wise exclusive or, as long as the shorter operand. -/
def xorBytes (a b : Bytes) : Bytes := List.zipWith (· ^^^ ·) a b

@[simp] theorem length_xorBytes (a b : Bytes) :
    (xorBytes a b).length = min a.length b.length := by
  simp [xorBytes]

/-! ## Blocks -/

/-- `blocks` with an explicit bound on the number of pieces. -/
def blocksUpTo {α : Type} (n : Nat) : (fuel : Nat) → List α → List (List α)
  | 0, _ => []
  | fuel + 1, l => if l.isEmpty then [] else l.take n :: blocksUpTo n fuel (l.drop n)

/-- Pieces of `n` elements in order; the last one holds what is left. -/
def blocks {α : Type} (n : Nat) (l : List α) : List (List α) := blocksUpTo n l.length l

theorem flatten_blocksUpTo {α : Type} {n : Nat} (hn : 0 < n) (fuel : Nat) (l : List α)
    (h : l.length ≤ fuel) : (blocksUpTo n fuel l).flatten = l := by
  induction fuel generalizing l with
  | zero => simp_all [blocksUpTo]
  | succ fuel ih =>
    rw [blocksUpTo]
    split
    · simp_all
    · next hne =>
      have hpos : 0 < l.length := by
        cases l with
        | nil => simp at hne
        | cons => simp
      rw [List.flatten_cons, ih _ (by rw [List.length_drop]; omega), List.take_append_drop]

/-- Cutting into blocks loses nothing. -/
theorem flatten_blocks {α : Type} {n : Nat} (hn : 0 < n) (l : List α) :
    (blocks n l).flatten = l :=
  flatten_blocksUpTo hn l.length l (Nat.le_refl _)

end SealedEnvelope
