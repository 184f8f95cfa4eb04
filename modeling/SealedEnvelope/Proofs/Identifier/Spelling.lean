import SealedEnvelope.Proofs.Identifier
import SealedEnvelope.Proofs.Text.Reading

set_option autoImplicit false

/-! # The texts of an identifier

A provider writes an identifier in one way and reads little more than that: a text names an
identifier exactly if the identifier is valid and its own text is the text that was read, folded to
small letters where the provider writes hexadecimal (`IdProvider.ofText_canonical`). -/

namespace SealedEnvelope.IdProvider

variable {bytes id : Bytes} {p : IdProvider} {text : String}

/-- A text without the differences that the provider overlooks: the case of hexadecimal digits. In
    base64 the case matters. -/
def folded (p : IdProvider) (text : String) : String :=
  match p with
  | guid => text
  | objectId | uuid | custom _ => text.toLower

theorem length_folded (p : IdProvider) (text : String) : (p.folded text).length = text.length := by
  have hlower : text.toLower.length = text.length := String.length_map
  cases p <;> simp [folded, hlower]

theorem length_utf8_folded (p : IdProvider) (text : String) :
    (Text.utf8 (p.folded text)).length = (Text.utf8 text).length := by
  cases p <;> simp [folded, Text.utf8_toLower]

/-- Characters of an identifier's text are as many as its octets. -/
theorem length_spell_eq_textOctets (h : id.length = p.byteLength) :
    (p.spell id).length = p.textOctets := by
  cases p with
  | guid =>
    rw [spell, Text.Base64.encode, String.length_ofList, List.length_map,
      Text.Base64.length_encodeBytes, h]
    rfl
  | uuid =>
    rw [spell, Text.DashedHex.encode, String.length_ofList, Text.DashedHex.length_encodeGroups, h]
    rfl
  | _ =>
    rw [spell, Text.Hex.encode, String.length_ofList, Text.Hex.length_flatMap_digits, h]
    rfl

/-! ## What is read -/

theorem decode_eq_ok_iff_toLower :
    Text.Hex.decode (Text.utf8 text) = .ok bytes ↔ text.toLower = Text.Hex.encode bytes := by
  rw [Text.Hex.decode_eq_ok_iff, ← Text.utf8_toLower, ← Text.Hex.utf8_encode, Text.utf8_inj]

theorem decode?_eq_some_iff_toLower (h : bytes.length = uuidSize) :
    Text.DashedHex.decode? (Text.utf8 text) = some bytes
      ↔ text.toLower = Text.DashedHex.encode bytes := by
  rw [Text.DashedHex.decode?_eq_some_iff, ← Text.utf8_toLower, ← Text.utf8_inj,
    Text.DashedHex.encode, Text.utf8_ofList fun _ => Text.DashedHex.lt_of_mem_encodeGroups]
  exact and_iff_right h

theorem decode_eq_ok_iff_encode :
    Text.Base64.decode (Text.utf8 text) = .ok bytes ↔ text = Text.Base64.encode bytes := by
  rw [Text.Base64.decode_eq_ok_iff, ← Text.Base64.utf8_encode, Text.utf8_inj]

/-- Nothing but the text of an identifier is read as it, up to folding. -/
theorem decodeText_eq_ok_iff (h : id.length = p.byteLength) :
    p.decodeText (Text.utf8 text) = .ok id ↔ p.spell id = p.folded text := by
  cases p with
  | guid =>
    rw [decodeText, mapError_eq_ok, decode_eq_ok_iff_encode]
    exact eq_comm
  | uuid =>
    have hread : decodeText uuid (Text.utf8 text) = .ok id
        ↔ Text.DashedHex.decode? (Text.utf8 text) = some id := by
      rw [decodeText]
      cases Text.DashedHex.decode? (Text.utf8 text) <;> simp
    rw [hread, decode?_eq_some_iff_toLower h]
    exact eq_comm
  | _ =>
    rw [decodeText, mapError_eq_ok, decode_eq_ok_iff_toLower]
    exact eq_comm

theorem ofText_eq_ok_iff_folded :
    p.ofText text = .ok id ↔ p.isValid id ∧ p.toText id = .ok (p.folded text) := by
  rw [ofText_eq_ok_iff, toText_eq_ok_iff]
  constructor
  · rintro ⟨hcheck, -, hdecode, hvalid⟩
    have hlength := length_of_isValid hvalid
    exact ⟨hvalid, hcheck, hlength, (decodeText_eq_ok_iff hlength).1 hdecode⟩
  · rintro ⟨hvalid, hcheck, hlength, hspell⟩
    refine ⟨hcheck, ?_, (decodeText_eq_ok_iff hlength).2 hspell, hvalid⟩
    rw [← length_utf8_folded, ← hspell, length_spell hlength]

/-! ## What follows -/

/-- Identifiers with one text are the same: the text reads back as each of them. -/
theorem eq_of_toText_eq {id' : Bytes} (h : p.isValid id) (h' : p.isValid id')
    (htext : p.toText id = p.toText id') : id = id' := by
  obtain ⟨text, hwrite, hread⟩ := exists_toText h
  obtain ⟨text', hwrite', hread'⟩ := exists_toText h'
  obtain rfl : text = text' := Except.ok.inj (by rw [← hwrite, htext, hwrite'])
  exact Except.ok.inj (hread.symm.trans hread')

theorem length_of_ofText (h : p.ofText text = .ok id) :
    text.length = p.textOctets ∧ (Text.utf8 text).length = p.textOctets := by
  obtain ⟨hvalid, htext⟩ := ofText_eq_ok_iff_folded.1 h
  obtain ⟨-, hlength, hspell⟩ := toText_eq_ok_iff.1 htext
  refine ⟨?_, (ofText_eq_ok_iff.1 h).2.1⟩
  rw [← length_folded p, ← hspell, length_spell_eq_textOctets hlength]

/-- **Only the text of an identifier is read as it, up to the case of hexadecimal digits.** A text
    names an identifier exactly if the identifier is valid and is written as that text, folded. So
    two texts of one identifier are the same once folded, no two valid identifiers are written
    alike, and a text that is accepted has as many characters, and octets, as the provider's texts
    have. -/
theorem ofText_canonical (p : IdProvider) :
    (∀ text id, p.ofText text = .ok id ↔ p.isValid id ∧ p.toText id = .ok (p.folded text))
      ∧ (∀ first second id, p.ofText first = .ok id → p.ofText second = .ok id →
          p.folded first = p.folded second)
      ∧ (∀ id id', p.isValid id → p.isValid id' → p.toText id = p.toText id' → id = id')
      ∧ ∀ text id, p.ofText text = .ok id →
          text.length = p.textOctets ∧ (Text.utf8 text).length = p.textOctets := by
  refine ⟨fun _ _ => ofText_eq_ok_iff_folded, ?_, fun _ _ => eq_of_toText_eq,
    fun _ _ => length_of_ofText⟩
  intro first second id hfirst hsecond
  have htext := (ofText_eq_ok_iff_folded.1 hfirst).2
  rw [(ofText_eq_ok_iff_folded.1 hsecond).2] at htext
  exact (Except.ok.inj htext).symm

/-- Digits of either case are read. -/
theorem ofText_canonical_mixed_case :
    (custom 2).ofText "aBcD" = .ok [0xab, 0xcd] := by
  have hfold : (custom 2).folded "aBcD" = "abcd" := by
    have hlower : "aBcD".toLower = "aBcD".map Char.toLower := rfl
    rw [folded, hlower, ← String.toList_inj, String.toList_map]
    decide
  refine ((ofText_canonical (custom 2)).1 "aBcD" [0xab, 0xcd]).2 ⟨by decide, ?_⟩
  rw [hfold]
  decide

end SealedEnvelope.IdProvider
