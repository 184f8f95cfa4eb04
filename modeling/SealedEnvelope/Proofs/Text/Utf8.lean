import SealedEnvelope.Proofs.Text

set_option autoImplicit false

/-! # Characters as octets

A text is its characters one after the other, a plain one in one octet and any other in octets from
128 on (`le_of_mem_utf8EncodeChar`). Different texts are different octets (`utf8_inj`), and the
octets of a text are read back as it (`ofUtf8?_utf8`). Capital letters can be told from the octets
alone, so folding them in the text or in its octets is the same (`utf8_toLower`). -/

namespace SealedEnvelope.Text

/-! ## Characters -/

theorem utf8EncodeChar_of_lt {c : Char} (h : c.toNat < 128) :
    String.utf8EncodeChar c = [octetOf c] :=
  if_pos (Nat.le_of_lt_succ h)

/-- No octet of a character that is not plain is plain. -/
theorem le_of_mem_utf8EncodeChar {c : Char} (h : 128 ≤ c.toNat) {b : UInt8}
    (hb : b ∈ String.utf8EncodeChar c) : 128 ≤ b.toNat := by
  have hwide : ¬c.val.toNat ≤ 127 := Nat.not_le_of_lt h
  have hmark : ∀ n, 128 ≤ n → n < 256 → 128 ≤ (UInt8.ofNat n).toNat := by
    intro n hn hlt
    rwa [UInt8.toNat_ofNat', Nat.mod_eq_of_lt hlt]
  rw [String.utf8EncodeChar] at hb
  simp only [if_neg hwide] at hb
  split at hb
  · simp only [List.mem_cons, List.not_mem_nil, or_false] at hb
    rcases hb with rfl | rfl <;> exact hmark _ (by omega) (by omega)
  · split at hb
    · simp only [List.mem_cons, List.not_mem_nil, or_false] at hb
      rcases hb with rfl | rfl | rfl <;> exact hmark _ (by omega) (by omega)
    · simp only [List.mem_cons, List.not_mem_nil, or_false] at hb
      rcases hb with rfl | rfl | rfl | rfl <;> exact hmark _ (by omega) (by omega)

/-! ## Texts -/

theorem utf8_eq_flatMap (s : String) : utf8 s = s.toList.flatMap String.utf8EncodeChar := by
  rw [utf8, String.toUTF8, ← String.utf8Encode_toList, List.utf8Encode,
    List.toList_data_toByteArray]

theorem utf8_append (s t : String) : utf8 (s ++ t) = utf8 s ++ utf8 t := by
  rw [utf8_eq_flatMap, utf8_eq_flatMap, utf8_eq_flatMap, String.toList_append,
    List.flatMap_append]

theorem utf8_inj {s t : String} : utf8 s = utf8 t ↔ s = t := by
  constructor
  · intro h
    exact String.toByteArray_inj.1 (ByteArray.ext (Array.toList_inj.1 h))
  · rintro rfl
    rfl

theorem ofUtf8?_utf8 (s : String) : ofUtf8? (utf8 s) = some s := by
  have hoctets : (⟨(utf8 s).toArray⟩ : ByteArray) = s.toByteArray := rfl
  rw [ofUtf8?, hoctets, String.fromUTF8?, dif_pos s.isValidUTF8]
  rfl

/-! ## Letter case -/

/-- An octet with a capital letter made small. -/
def lowerOctet (b : UInt8) : UInt8 := if 65 ≤ b ∧ b ≤ 90 then b + 32 else b

theorem lowerOctet_of_le {b : UInt8} (h : 128 ≤ b.toNat) : lowerOctet b = b := by
  refine if_neg fun hb => ?_
  have hle : b.toNat ≤ 90 := UInt8.le_iff_toNat_le.1 hb.2
  omega

theorem octetOf_toLower : ∀ n < 128, (Char.ofNat n).toLower.toNat < 128
    ∧ octetOf (Char.ofNat n).toLower = lowerOctet (octetOf (Char.ofNat n)) := by
  decide

theorem toLower_of_le {c : Char} (h : 128 ≤ c.toNat) : c.toLower = c := by
  refine dif_neg fun hc => ?_
  have hle : c.val.toNat ≤ 90 := UInt32.le_iff_toNat_le.1 hc.2
  exact absurd (Nat.le_trans h hle) (by decide)

theorem utf8EncodeChar_toLower (c : Char) :
    String.utf8EncodeChar c.toLower = (String.utf8EncodeChar c).map lowerOctet := by
  rcases Nat.lt_or_ge c.toNat 128 with h | h
  · obtain ⟨hlower, hoctet⟩ := octetOf_toLower c.toNat h
    rw [Char.ofNat_toNat] at hlower hoctet
    rw [utf8EncodeChar_of_lt hlower, hoctet, utf8EncodeChar_of_lt h, List.map_singleton]
  · have hsame : (String.utf8EncodeChar c).map lowerOctet = (String.utf8EncodeChar c).map id :=
      List.map_congr_left fun b hb => lowerOctet_of_le (le_of_mem_utf8EncodeChar h hb)
    rw [toLower_of_le h, hsame, List.map_id]

/-- Folding a text folds its octets one by one. -/
theorem utf8_toLower (s : String) : utf8 s.toLower = (utf8 s).map lowerOctet := by
  have hlower : s.toLower = s.map Char.toLower := rfl
  rw [utf8_eq_flatMap, utf8_eq_flatMap, hlower, String.toList_map, List.flatMap_map,
    List.map_flatMap]
  simp only [utf8EncodeChar_toLower]

end SealedEnvelope.Text
