import SealedEnvelope.Proofs.Octets
import SealedEnvelope.Proofs.Sequence
import SealedEnvelope.Proofs.Text.Utf8

set_option autoImplicit false

/-! # Texts that are read

The readers of the three texts for octet strings accept nothing but what the writers write: base64
text to the letter (`Base64.decode_eq_ok_iff`), the two hexadecimal forms up to the case of the
digits (`Hex.decode_eq_ok_iff`, `DashedHex.decode?_eq_some_iff`). -/

namespace SealedEnvelope.Text

/-! ## Hexadecimal -/

namespace Hex

theorem value?_lowerOctet : ∀ b, value? (lowerOctet b) = value? b :=
  forall_octet (by decide +kernel)

theorem value?_cases : ∀ b, value? b = none
    ∨ ∃ v < 16, value? b = some v ∧ lowerOctet b = octetOf (digit v) :=
  forall_octet (by decide +kernel)

/-- The digits of a value are the one that is written for it and its capital. -/
theorem value?_eq_some_iff {b : UInt8} {v : Nat} :
    value? b = some v ↔ v < 16 ∧ lowerOctet b = octetOf (digit v) := by
  constructor
  · intro h
    rcases value?_cases b with hnone | ⟨w, hw, hsome, hlower⟩
    · rw [hnone] at h
      cases h
    · obtain rfl := Option.some.inj (hsome.symm.trans h)
      exact ⟨hw, hlower⟩
  · rintro ⟨hv, hlower⟩
    rw [← value?_lowerOctet, hlower, value?_digit v hv]

/-- A pair of digits that is written for an octet is the two halves of it. -/
theorem value?_of_digits {hi lo b : UInt8} {rest : Bytes} {others : List Char}
    (h : (hi :: lo :: rest).map lowerOctet = (digits b ++ others).map octetOf) :
    value? hi = some (b.toNat / 16) ∧ value? lo = some (b.toNat % 16)
      ∧ rest.map lowerOctet = others.map octetOf := by
  have hb : b.toNat < 256 := b.toNat_lt
  simp only [digits, List.cons_append, List.nil_append, List.map_cons, List.cons.injEq] at h
  obtain ⟨hhigh, hlow, hrest⟩ := h
  exact ⟨value?_eq_some_iff.2 ⟨by omega, hhigh⟩, value?_eq_some_iff.2 ⟨by omega, hlow⟩, hrest⟩

theorem digits_ofNat {v w : Nat} (hv : v < 16) (hw : w < 16) :
    digits (UInt8.ofNat (v * 16 + w)) = [digit v, digit w] := by
  have hoctet : (UInt8.ofNat (v * 16 + w)).toNat = v * 16 + w := by
    rw [UInt8.toNat_ofNat', Nat.mod_eq_of_lt (by omega)]
  have hfirst : (v * 16 + w) / 16 = v := by omega
  have hsecond : (v * 16 + w) % 16 = w := by omega
  rw [digits, hoctet, hfirst, hsecond]

theorem decodePairs_eq_ok_iff {offset : Nat} {read text bytes : Bytes} :
    decodePairs offset read text = .ok bytes
      ↔ ∃ tail, read.reverse ++ tail = bytes
        ∧ text.map lowerOctet = (tail.flatMap digits).map octetOf := by
  fun_induction decodePairs offset read text with
  | case1 offset read =>
    constructor
    · intro h
      obtain rfl := Except.ok.inj h
      exact ⟨[], List.append_nil _, rfl⟩
    · rintro ⟨tail, rfl, h⟩
      cases tail with
      | nil => rw [List.append_nil]
      | cons b tail => cases h
  | case2 offset read b =>
    refine iff_of_false (by simp) ?_
    rintro ⟨tail, -, h⟩
    have hlength := congrArg List.length h
    rw [List.length_map, List.length_map, length_flatMap_digits, List.length_singleton] at hlength
    omega
  | case3 offset read hi lo rest hnone =>
    refine iff_of_false (by simp) ?_
    rintro ⟨tail, -, h⟩
    cases tail with
    | nil => cases h
    | cons b tail =>
      obtain ⟨hhigh, -⟩ := value?_of_digits h
      rw [hnone] at hhigh
      cases hhigh
  | case4 offset read hi lo rest hnone =>
    refine iff_of_false (by simp) ?_
    rintro ⟨tail, -, h⟩
    cases tail with
    | nil => cases h
    | cons b tail =>
      obtain ⟨-, hlow, -⟩ := value?_of_digits h
      rw [hnone] at hlow
      cases hlow
  | case5 offset read hi lo rest v w hlow hhigh ih =>
    obtain ⟨hv, hhi⟩ := value?_eq_some_iff.1 hhigh
    obtain ⟨hw, hlo⟩ := value?_eq_some_iff.1 hlow
    rw [ih]
    constructor
    · rintro ⟨tail, rfl, h⟩
      refine ⟨UInt8.ofNat (v * 16 + w) :: tail, by simp, ?_⟩
      rw [List.flatMap_cons, digits_ofNat hv hw, List.map_append, List.map_cons, List.map_cons, hhi,
        hlo, h]
      rfl
    · rintro ⟨tail, rfl, h⟩
      cases tail with
      | nil => cases h
      | cons b tail =>
        obtain ⟨hhigh', hlow', hrest⟩ := value?_of_digits h
        obtain rfl := Option.some.inj (hhigh'.symm.trans hhigh)
        obtain rfl := Option.some.inj (hlow'.symm.trans hlow)
        rw [Nat.div_add_mod', UInt8.ofNat_toNat]
        exact ⟨tail, by simp, hrest⟩

/-- A text of digits is read exactly if folding it gives what is written. -/
theorem decode_eq_ok_iff {text bytes : Bytes} :
    decode text = .ok bytes ↔ text.map lowerOctet = (bytes.flatMap digits).map octetOf := by
  have hpairs : decodePairs 0 [] text = .ok bytes
      ↔ text.map lowerOctet = (bytes.flatMap digits).map octetOf := by
    rw [decodePairs_eq_ok_iff]
    simp
  rw [decode]
  split
  · next hodd =>
    refine iff_of_false (by simp) fun h => ?_
    have hlength := congrArg List.length h
    rw [List.length_map, List.length_map, length_flatMap_digits] at hlength
    omega
  · exact hpairs

end Hex

/-! ## Dashed hexadecimal -/

namespace DashedHex

theorem lowerOctet_eq_dash_iff : ∀ b, lowerOctet b = octetOf '-' ↔ b = 45 :=
  forall_octet (by decide +kernel)

theorem decodeGroups_cons_eq_some_iff {n : Nat} {sizes : List Nat} (hne : sizes ≠ [])
    {text bytes : Bytes} :
    decodeGroups (n :: sizes) text = some bytes
      ↔ ∃ group dash rest tail, Hex.decode (text.take (2 * n)) = .ok group
        ∧ text.drop (2 * n) = dash :: rest ∧ dash = 45 ∧ group.length = n
        ∧ decodeGroups sizes rest = some tail ∧ group ++ tail = bytes := by
  rw [decodeGroups.eq_3 _ _ _ hne]
  cases Hex.decode (text.take (2 * n)) with
  | error fault => simp [Except.toOption]
  | ok group =>
    cases text.drop (2 * n) with
    | nil => simp [Except.toOption]
    | cons dash rest =>
      by_cases h : dash = 45 ∧ group.length = n
      · simp [Except.toOption, h, Option.bind_eq_some_iff]
      · simp only [Except.toOption, Option.bind_eq_bind, Option.bind_some, if_neg h]
        refine iff_of_false (by simp) ?_
        rintro ⟨group', dash', rest', tail, hgroup, hdash, hmark, hlength, -⟩
        obtain rfl := Except.ok.inj hgroup
        obtain ⟨rfl, rfl⟩ := List.cons.inj hdash
        exact h ⟨hmark, hlength⟩

/-- The text in front of a dash and behind it. -/
theorem encodeGroups_append {sizes : List Nat} (hne : sizes ≠ []) {group tail : Bytes} :
    encodeGroups (group.length :: sizes) (group ++ tail)
      = group.flatMap Hex.digits ++ '-' :: encodeGroups sizes tail := by
  rw [encodeGroups.eq_3 _ _ _ hne, List.take_left' rfl, List.drop_left' rfl]

theorem decodeGroups_eq_some_iff {sizes : List Nat} {text bytes : Bytes} :
    decodeGroups sizes text = some bytes
      ↔ bytes.length = sizes.sum
        ∧ text.map lowerOctet = (encodeGroups sizes bytes).map octetOf := by
  induction sizes generalizing text bytes with
  | nil =>
    cases text with
    | nil => cases bytes <;> simp [decodeGroups, encodeGroups]
    | cons b text => cases bytes <;> simp [decodeGroups, encodeGroups]
  | cons n sizes ih =>
    by_cases hne : sizes = []
    · subst hne
      have hread : (Hex.decode text).toOption = some bytes ↔ Hex.decode text = .ok bytes := by
        cases Hex.decode text <;> simp [Except.toOption]
      rw [decodeGroups, encodeGroups, List.sum_singleton]
      by_cases hlength : text.length = 2 * n
      · rw [if_pos hlength, hread, Hex.decode_eq_ok_iff]
        refine ⟨fun h => ⟨?_, h⟩, fun h => h.2⟩
        have hwidth := congrArg List.length h
        rw [List.length_map, List.length_map, Hex.length_flatMap_digits] at hwidth
        omega
      · rw [if_neg hlength]
        refine iff_of_false (by simp) ?_
        rintro ⟨rfl, h⟩
        have hwidth := congrArg List.length h
        rw [List.length_map, List.length_map, Hex.length_flatMap_digits] at hwidth
        exact hlength hwidth
    · rw [decodeGroups_cons_eq_some_iff hne]
      constructor
      · rintro ⟨group, dash, rest, tail, hgroup, hdrop, rfl, rfl, htail, rfl⟩
        obtain ⟨hsum, hrest⟩ := ih.1 htail
        refine ⟨by simp [hsum], ?_⟩
        rw [← List.take_append_drop (2 * group.length) text, hdrop, encodeGroups_append hne,
          List.map_append, List.map_append, Hex.decode_eq_ok_iff.1 hgroup, List.map_cons,
          List.map_cons, hrest, (lowerOctet_eq_dash_iff 45).2 rfl]
      · rintro ⟨hsum, h⟩
        rw [List.sum_cons] at hsum
        obtain ⟨group, tail, rfl, hgroup⟩ :
            ∃ group tail, group ++ tail = bytes ∧ group.length = n :=
          ⟨_, _, List.take_append_drop n bytes, List.length_take_of_le (by omega)⟩
        subst hgroup
        rw [List.length_append] at hsum
        rw [encodeGroups_append hne, List.map_append, List.map_eq_append_iff] at h
        obtain ⟨front, back, rfl, hfront, hback⟩ := h
        obtain ⟨dash, rest, rfl, hdash, hrest⟩ := List.map_eq_cons_iff.1 hback
        have hwidth : front.length = 2 * group.length := by
          rw [← Hex.length_flatMap_digits, ← List.length_map (f := octetOf), ← hfront,
            List.length_map]
        refine ⟨group, dash, rest, tail, ?_, List.drop_left' hwidth,
          (lowerOctet_eq_dash_iff dash).1 hdash, rfl, ih.2 ⟨by omega, hrest⟩, rfl⟩
        rw [List.take_left' hwidth, Hex.decode_eq_ok_iff, hfront]

/-- A dashed text is read exactly if folding it gives what is written for sixteen octets. -/
theorem decode?_eq_some_iff {text bytes : Bytes} :
    decode? text = some bytes
      ↔ bytes.length = groupSizes.sum
        ∧ text.map lowerOctet = (encodeGroups groupSizes bytes).map octetOf :=
  decodeGroups_eq_some_iff

end DashedHex

/-! ## Base64 -/

namespace Base64

theorem value?_cases : ∀ b, value? b = none ∨ ∃ v < 64, value? b = some v ∧ symbol v = b :=
  forall_octet (by decide +kernel)

theorem valueAt_eq_ok_iff {offset : Nat} {b : UInt8} {v : Nat} :
    valueAt offset b = .ok v ↔ v < 64 ∧ symbol v = b := by
  constructor
  · intro h
    rcases value?_cases b with hnone | ⟨w, hw, hsome, hsymbol⟩
    · rw [valueAt, hnone] at h
      cases h
    · rw [valueAt, hsome] at h
      obtain rfl := Except.ok.inj h
      exact ⟨hw, hsymbol⟩
  · rintro ⟨hv, rfl⟩
    exact valueAt_symbol offset hv

theorem toNat_ofNat_of_lt {n : Nat} (h : n < 256) : (UInt8.ofNat n).toNat = n := by
  rw [UInt8.toNat_ofNat', Nat.mod_eq_of_lt h]

/-- Four symbols are the text of the three octets that share their bits. -/
theorem encodeBytes_of_values {v0 v1 v2 v3 : Nat} (h0 : v0 < 64) (h1 : v1 < 64) (h2 : v2 < 64)
    (h3 : v3 < 64) (tail : Bytes) :
    encodeBytes (UInt8.ofNat (v0 * 4 + v1 / 16) :: UInt8.ofNat (v1 % 16 * 16 + v2 / 4)
        :: UInt8.ofNat (v2 % 4 * 64 + v3) :: tail)
      = symbol v0 :: symbol v1 :: symbol v2 :: symbol v3 :: encodeBytes tail := by
  have hv0 : (v0 * 4 + v1 / 16) / 4 = v0 := by omega
  have hv1 : (v0 * 4 + v1 / 16) % 4 * 16 + (v1 % 16 * 16 + v2 / 4) / 16 = v1 := by omega
  have hv2 : (v1 % 16 * 16 + v2 / 4) % 16 * 4 + (v2 % 4 * 64 + v3) / 64 = v2 := by omega
  have hv3 : (v2 % 4 * 64 + v3) % 64 = v3 := by omega
  rw [encodeBytes, toNat_ofNat_of_lt (by omega), toNat_ofNat_of_lt (by omega),
    toNat_ofNat_of_lt (by omega), hv0, hv1, hv2, hv3]

/-- The last group is the text of the one, two or three octets that it stands for. -/
theorem encodeBytes_of_decodeLast {offset : Nat} {s0 s1 s2 s3 : UInt8} {bytes : Bytes}
    (h : decodeLast offset s0 s1 s2 s3 = .ok bytes) : encodeBytes bytes = [s0, s1, s2, s3] := by
  rw [decodeLast, bind_eq_ok] at h
  obtain ⟨v0, h0, h⟩ := h
  rw [bind_eq_ok] at h
  obtain ⟨v1, h1, h⟩ := h
  obtain ⟨hv0, rfl⟩ := valueAt_eq_ok_iff.1 h0
  obtain ⟨hv1, rfl⟩ := valueAt_eq_ok_iff.1 h1
  have hfirst : (v0 * 4 + v1 / 16) / 4 = v0 := by omega
  by_cases hpad : s2 = pad
  · -- one octet
    subst hpad
    by_cases hlast : s3 = pad
    · subst hlast
      by_cases hspare : v1 % 16 = 0
      · simp only [ne_eq, not_true, if_false, if_true, hspare] at h
        obtain rfl := Except.ok.inj h
        have hsecond : (v0 * 4 + v1 / 16) % 4 * 16 = v1 := by omega
        rw [encodeBytes, toNat_ofNat_of_lt (by omega), hfirst, hsecond]
      · simp [hspare, map_eq_ok, throw_eq_ok] at h
    · simp [hlast, bind_eq_ok, throw_eq_ok] at h
  · rw [if_neg hpad, bind_eq_ok] at h
    obtain ⟨v2, h2, h⟩ := h
    obtain ⟨hv2, rfl⟩ := valueAt_eq_ok_iff.1 h2
    by_cases hlast : s3 = pad
    · -- two octets
      subst hlast
      by_cases hspare : v2 % 4 = 0
      · simp only [ne_eq, not_true, if_false, if_true, hspare] at h
        obtain rfl := Except.ok.inj h
        have hsecond : (v0 * 4 + v1 / 16) % 4 * 16 + (v1 % 16 * 16 + v2 / 4) / 16 = v1 := by omega
        have hthird : (v1 % 16 * 16 + v2 / 4) % 16 * 4 = v2 := by omega
        rw [encodeBytes, toNat_ofNat_of_lt (by omega), toNat_ofNat_of_lt (by omega), hfirst,
          hsecond, hthird]
      · simp [hspare, map_eq_ok, throw_eq_ok] at h
    · rw [if_neg hlast, bind_eq_ok] at h
      obtain ⟨v3, h3, h⟩ := h
      obtain ⟨hv3, rfl⟩ := valueAt_eq_ok_iff.1 h3
      obtain rfl := Except.ok.inj h
      exact encodeBytes_of_values hv0 hv1 hv2 hv3 []

theorem encodeBytes_of_decodeFrom {offset : Nat} {text bytes : Bytes}
    (h : decodeFrom offset text = .ok bytes) : encodeBytes bytes = text := by
  fun_induction decodeFrom offset text generalizing bytes with
  | case1 offset =>
    obtain rfl := Except.ok.inj h
    rfl
  | case2 offset => exact encodeBytes_of_decodeLast h
  | case3 offset s0 s1 s2 s3 rest hrest ih =>
    simp only [bind_eq_ok, pure_eq_ok] at h
    obtain ⟨v0, h0, v1, h1, v2, h2, v3, h3, tail, htail, rfl⟩ := h
    obtain ⟨hv0, rfl⟩ := valueAt_eq_ok_iff.1 h0
    obtain ⟨hv1, rfl⟩ := valueAt_eq_ok_iff.1 h1
    obtain ⟨hv2, rfl⟩ := valueAt_eq_ok_iff.1 h2
    obtain ⟨hv3, rfl⟩ := valueAt_eq_ok_iff.1 h3
    rw [encodeBytes_of_values hv0 hv1 hv2 hv3, ih htail]
  | case4 offset text => cases h

/-- Only the text of an octet string is read, and as that string. -/
theorem decode_eq_ok_iff {text bytes : Bytes} :
    decode text = .ok bytes ↔ text = encodeBytes bytes := by
  constructor
  · intro h
    exact (encodeBytes_of_decodeFrom h).symm
  · rintro rfl
    exact decodeFrom_encodeBytes _ _

end Base64

end SealedEnvelope.Text
