import SealedEnvelope.Text.Base64
import SealedEnvelope.Text.DashedHex
import SealedEnvelope.Text.Utf8
import Mathlib.Algebra.GroupWithZero.Nat

set_option autoImplicit false

/-! # Octets as text

The three texts for octet strings use plain characters only, each of which is one octet of UTF-8
(`utf8_ofList`). So their lengths are known, and reading gives back the octets that were written:
`Hex.decode_encode`, `DashedHex.decode?_encode` and `Base64.decode_encode`. -/

namespace SealedEnvelope.Text

/-- The octet of a plain character. -/
def octetOf (c : Char) : UInt8 := UInt8.ofNat c.toNat

theorem utf8_ofList {cs : List Char} (h : ∀ c ∈ cs, c.toNat < 128) :
    utf8 (String.ofList cs) = cs.map octetOf := by
  rw [utf8, String.toUTF8, String.toByteArray_ofList, List.utf8Encode,
    List.toList_data_toByteArray]
  induction cs with
  | nil => rfl
  | cons c rest ih =>
    obtain ⟨hc, hrest⟩ := List.forall_mem_cons.1 h
    have hchar : String.utf8EncodeChar c = [octetOf c] := if_pos (Nat.le_of_lt_succ hc)
    rw [List.flatMap_cons, hchar, ih hrest]
    rfl

/-! ## Hexadecimal -/

namespace Hex

theorem digit_lt : ∀ n < 16, (digit n).toNat < 128 := by decide

theorem value?_digit : ∀ n < 16, value? (octetOf (digit n)) = some n := by decide

theorem lt_of_mem_digits {b : UInt8} {c : Char} (h : c ∈ digits b) : c.toNat < 128 := by
  have hb : b.toNat < 256 := b.toNat_lt
  simp only [digits, List.mem_cons, List.not_mem_nil, or_false] at h
  rcases h with rfl | rfl
  · exact digit_lt _ (by omega)
  · exact digit_lt _ (by omega)

theorem lt_of_mem_flatMap_digits {bytes : Bytes} {c : Char} (h : c ∈ bytes.flatMap digits) :
    c.toNat < 128 := by
  obtain ⟨b, -, hc⟩ := List.mem_flatMap.1 h
  exact lt_of_mem_digits hc

theorem length_flatMap_digits (bytes : Bytes) :
    (bytes.flatMap digits).length = 2 * bytes.length := by
  induction bytes with
  | nil => rfl
  | cons b rest ih =>
    rw [List.flatMap_cons, List.length_append, ih, List.length_cons]
    simp only [digits, List.length_cons, List.length_nil]
    omega

theorem decodePairs_digits (offset : Nat) (read bytes : Bytes) :
    decodePairs offset read ((bytes.flatMap digits).map octetOf) = .ok (read.reverse ++ bytes) := by
  induction bytes generalizing offset read with
  | nil => rw [List.append_nil]; rfl
  | cons b rest ih =>
    have hb : b.toNat < 256 := b.toNat_lt
    have hhigh := value?_digit (b.toNat / 16) (by omega)
    have hlow := value?_digit (b.toNat % 16) (by omega)
    have hvalue : b.toNat / 16 * 16 + b.toNat % 16 = b.toNat := Nat.div_add_mod' ..
    simp only [List.flatMap_cons, digits, List.cons_append, List.nil_append, List.map_cons,
      decodePairs, hhigh, hlow, hvalue, UInt8.ofNat_toNat, ih, List.reverse_cons,
      List.append_assoc]

theorem decode_digits (bytes : Bytes) :
    decode ((bytes.flatMap digits).map octetOf) = .ok bytes := by
  have heven : ((bytes.flatMap digits).map octetOf).length % 2 ≠ 1 := by
    rw [List.length_map, length_flatMap_digits]
    omega
  rw [decode, if_neg heven, decodePairs_digits]
  rfl

theorem utf8_encode (bytes : Bytes) : utf8 (encode bytes) = (bytes.flatMap digits).map octetOf :=
  utf8_ofList fun _ => lt_of_mem_flatMap_digits

/-- Hexadecimal text reads back. -/
theorem decode_encode (bytes : Bytes) : decode (utf8 (encode bytes)) = .ok bytes := by
  rw [utf8_encode, decode_digits]

theorem length_utf8_encode (bytes : Bytes) : (utf8 (encode bytes)).length = 2 * bytes.length := by
  rw [utf8_encode, List.length_map, length_flatMap_digits]

end Hex

/-! ## Dashed hexadecimal -/

namespace DashedHex

theorem lt_of_mem_encodeGroups {sizes : List Nat} {bytes : Bytes} {c : Char}
    (h : c ∈ encodeGroups sizes bytes) : c.toNat < 128 := by
  fun_induction encodeGroups sizes bytes with
  | case1 bytes => exact Hex.lt_of_mem_flatMap_digits h
  | case2 n bytes => exact Hex.lt_of_mem_flatMap_digits h
  | case3 n sizes bytes _ ih =>
    rcases List.mem_append.1 h with h | h
    · exact Hex.lt_of_mem_flatMap_digits h
    · rcases List.mem_cons.1 h with rfl | h
      · decide
      · exact ih h

/-- Two digits for each octet, and a dash between groups. -/
theorem length_encodeGroups (sizes : List Nat) (bytes : Bytes) :
    (encodeGroups sizes bytes).length = 2 * bytes.length + (sizes.length - 1) := by
  fun_induction encodeGroups sizes bytes with
  | case1 bytes => exact Hex.length_flatMap_digits bytes
  | case2 n bytes => exact Hex.length_flatMap_digits bytes
  | case3 n sizes bytes hne ih =>
    rw [List.length_append, List.length_cons, ih, Hex.length_flatMap_digits, List.length_cons,
      List.length_take, List.length_drop]
    have hpos : 0 < sizes.length := List.length_pos_iff.2 fun h => hne h
    omega

theorem decodeGroups_encodeGroups {sizes : List Nat} {bytes : Bytes}
    (h : bytes.length = sizes.sum) :
    decodeGroups sizes ((encodeGroups sizes bytes).map octetOf) = some bytes := by
  fun_induction encodeGroups sizes bytes with
  | case1 bytes =>
    obtain rfl := List.length_eq_zero_iff.1 h
    rfl
  | case2 n bytes =>
    have hlength : ((bytes.flatMap Hex.digits).map octetOf).length = 2 * n := by
      rw [List.length_map, Hex.length_flatMap_digits, h, List.sum_singleton]
    rw [decodeGroups, if_pos hlength, Hex.decode_digits]
    rfl
  | case3 n sizes bytes hne ih =>
    rw [List.sum_cons] at h
    have hgroup : (bytes.take n).length = n := List.length_take_of_le (by omega)
    have htail : (bytes.drop n).length = sizes.sum := by
      rw [List.length_drop]
      omega
    have hwidth : (((bytes.take n).flatMap Hex.digits).map octetOf).length = 2 * n := by
      rw [List.length_map, Hex.length_flatMap_digits, hgroup]
    rw [List.map_append, List.map_cons, decodeGroups.eq_3 _ _ _ hne, List.take_left' hwidth,
      List.drop_left' hwidth, Hex.decode_digits]
    have hdash : octetOf '-' = 45 := by decide
    simp [Except.toOption, hdash, hgroup, ih htail]

/-- Dashed text of sixteen octets reads back. -/
theorem decode?_encode {bytes : Bytes} (h : bytes.length = 16) :
    decode? (utf8 (encode bytes)) = some bytes := by
  rw [encode, utf8_ofList fun _ => lt_of_mem_encodeGroups]
  exact decodeGroups_encodeGroups h

theorem length_utf8_encode {bytes : Bytes} (h : bytes.length = 16) :
    (utf8 (encode bytes)).length = 36 := by
  rw [encode, utf8_ofList fun _ => lt_of_mem_encodeGroups, List.length_map, length_encodeGroups, h]
  rfl

end DashedHex

/-! ## Base64 -/

namespace Base64

theorem value?_symbol : ∀ v < 64, value? (symbol v) = some v := by decide

theorem symbol_ne_pad : ∀ v < 64, symbol v ≠ pad := by decide

theorem symbol_lt (v : Nat) : (symbol v).toNat < 128 := by
  have hsmall : ∀ v < 63, (symbol v).toNat < 128 := by decide
  by_cases hv : v < 63
  · exact hsmall v hv
  · have hlast : symbol v = 47 := by
      rw [symbol, if_neg (by omega), if_neg (by omega), if_neg (by omega), if_neg (by omega)]
      rfl
    rw [hlast]
    decide

theorem lt_of_mem_encodeBytes (bytes : Bytes) : ∀ s ∈ encodeBytes bytes, s.toNat < 128 := by
  fun_induction encodeBytes bytes with
  | case1 => simp
  | case2 a => simp [symbol_lt, pad]
  | case3 a b => simp [symbol_lt, pad]
  | case4 a b c rest ih => simpa [symbol_lt] using ih

theorem octetOf_ofNat : ∀ n < 128, octetOf (Char.ofNat n) = UInt8.ofNat n := by decide

theorem toNat_ofNat : ∀ n < 128, (Char.ofNat n).toNat = n := by decide

theorem utf8_encode (bytes : Bytes) : utf8 (encode bytes) = encodeBytes bytes := by
  have hplain := lt_of_mem_encodeBytes bytes
  have hchars : ∀ c ∈ (encodeBytes bytes).map fun s => Char.ofNat s.toNat, c.toNat < 128 :=
    List.forall_mem_map.2 fun s hs => by
      rw [toNat_ofNat _ (hplain s hs)]
      exact hplain s hs
  have hback : ∀ s ∈ encodeBytes bytes, octetOf (Char.ofNat s.toNat) = id s := fun s hs => by
    rw [octetOf_ofNat _ (hplain s hs), UInt8.ofNat_toNat]
    rfl
  rw [encode, utf8_ofList hchars, List.map_map]
  exact (List.map_congr_left hback).trans (List.map_id _)

theorem valueAt_symbol (offset : Nat) {v : Nat} (h : v < 64) :
    valueAt offset (symbol v) = .ok v := by
  rw [valueAt, value?_symbol v h]

/-- Four symbols other than padding are three octets. -/
theorem decodeFrom_group {v0 v1 v2 v3 : Nat} (h0 : v0 < 64) (h1 : v1 < 64) (h2 : v2 < 64)
    (h3 : v3 < 64) (offset : Nat) (rest : Bytes) :
    decodeFrom offset (symbol v0 :: symbol v1 :: symbol v2 :: symbol v3 :: rest)
      = (decodeFrom (offset + 4) rest).map fun tail =>
        UInt8.ofNat (v0 * 4 + v1 / 16) :: UInt8.ofNat (v1 % 16 * 16 + v2 / 4)
          :: UInt8.ofNat (v2 % 4 * 64 + v3) :: tail := by
  cases rest with
  | nil =>
    simp [decodeFrom, decodeLast, valueAt_symbol, h0, h1, h2, h3, symbol_ne_pad, bind, Except.bind,
      pure, Except.pure, Except.map]
  | cons s rest =>
    simp [decodeFrom, valueAt_symbol, h0, h1, h2, h3, bind, Except.bind, pure, Except.pure,
      Except.map]

/-- Two symbols and padding are one octet. -/
theorem decodeFrom_one {v0 v1 : Nat} (h0 : v0 < 64) (h1 : v1 < 64) (hspare : v1 % 16 = 0)
    (offset : Nat) :
    decodeFrom offset [symbol v0, symbol v1, pad, pad] = .ok [UInt8.ofNat (v0 * 4 + v1 / 16)] := by
  simp [decodeFrom, decodeLast, valueAt_symbol, h0, h1, hspare, bind, Except.bind, pure,
    Except.pure]

/-- Three symbols and padding are two octets. -/
theorem decodeFrom_two {v0 v1 v2 : Nat} (h0 : v0 < 64) (h1 : v1 < 64) (h2 : v2 < 64)
    (hspare : v2 % 4 = 0) (offset : Nat) :
    decodeFrom offset [symbol v0, symbol v1, symbol v2, pad]
      = .ok [UInt8.ofNat (v0 * 4 + v1 / 16), UInt8.ofNat (v1 % 16 * 16 + v2 / 4)] := by
  simp [decodeFrom, decodeLast, valueAt_symbol, symbol_ne_pad, h0, h1, h2, hspare, bind,
    Except.bind, pure, Except.pure]

theorem decodeFrom_encodeBytes (offset : Nat) (bytes : Bytes) :
    decodeFrom offset (encodeBytes bytes) = .ok bytes := by
  fun_induction encodeBytes bytes generalizing offset with
  | case1 => rfl
  | case2 a =>
    have ha : a.toNat < 256 := a.toNat_lt
    have hfirst : a.toNat / 4 * 4 + a.toNat % 4 * 16 / 16 = a.toNat := by omega
    rw [decodeFrom_one (by omega) (by omega) (by omega), hfirst, UInt8.ofNat_toNat]
  | case3 a b =>
    have ha : a.toNat < 256 := a.toNat_lt
    have hb : b.toNat < 256 := b.toNat_lt
    have hfirst : a.toNat / 4 * 4 + (a.toNat % 4 * 16 + b.toNat / 16) / 16 = a.toNat := by omega
    have hsecond : (a.toNat % 4 * 16 + b.toNat / 16) % 16 * 16 + b.toNat % 16 * 4 / 4
        = b.toNat := by omega
    rw [decodeFrom_two (by omega) (by omega) (by omega) (by omega), hfirst, hsecond,
      UInt8.ofNat_toNat, UInt8.ofNat_toNat]
  | case4 a b c rest ih =>
    have ha : a.toNat < 256 := a.toNat_lt
    have hb : b.toNat < 256 := b.toNat_lt
    have hc : c.toNat < 256 := c.toNat_lt
    have hfirst : a.toNat / 4 * 4 + (a.toNat % 4 * 16 + b.toNat / 16) / 16 = a.toNat := by omega
    have hsecond : (a.toNat % 4 * 16 + b.toNat / 16) % 16 * 16
        + (b.toNat % 16 * 4 + c.toNat / 64) / 4 = b.toNat := by omega
    have hthird : (b.toNat % 16 * 4 + c.toNat / 64) % 4 * 64 + c.toNat % 64 = c.toNat := by omega
    rw [decodeFrom_group (by omega) (by omega) (by omega) (by omega), ih, hfirst, hsecond, hthird]
    simp only [UInt8.ofNat_toNat]
    rfl

/-- Base64 text reads back. -/
theorem decode_encode (bytes : Bytes) : decode (utf8 (encode bytes)) = .ok bytes := by
  rw [utf8_encode, decode, decodeFrom_encodeBytes]

theorem length_encodeBytes (bytes : Bytes) :
    (encodeBytes bytes).length = 4 * ((bytes.length + 2) / 3) := by
  fun_induction encodeBytes bytes with
  | case1 => rfl
  | case2 a => simp
  | case3 a b => simp
  | case4 a b c rest ih =>
    simp only [List.length_cons, ih]
    omega

theorem length_utf8_encode (bytes : Bytes) :
    (utf8 (encode bytes)).length = 4 * ((bytes.length + 2) / 3) := by
  rw [utf8_encode, length_encodeBytes]

end Base64

end SealedEnvelope.Text
