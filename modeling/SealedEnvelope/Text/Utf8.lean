import SealedEnvelope.Octets

set_option autoImplicit false

/-! # Text as octets

Texts are measured and scanned by their UTF-8 octets, so that offsets in messages count octets. -/

namespace SealedEnvelope.Text

/-- The UTF-8 octets of a text. -/
def utf8 (s : String) : Bytes := s.toUTF8.data.toList

/-- The text that UTF-8 octets spell, if they are valid. -/
def ofUtf8? (bytes : Bytes) : Option String := String.fromUTF8? ⟨bytes.toArray⟩

/-- White space as the standard lists it: the characters that `trim` strips. -/
def isBlank (c : Char) : Bool :=
  let n := c.toNat
  (9 ≤ n && n ≤ 13) || n = 0x20 || n = 0x85 || n = 0xa0 || n = 0x1680 || (0x2000 ≤ n && n ≤ 0x200a)
    || n = 0x2028 || n = 0x2029 || n = 0x202f || n = 0x205f || n = 0x3000

/-- A text without the white space at its two ends. -/
def trim (s : String) : String :=
  String.ofList ((s.toList.dropWhile isBlank).reverse.dropWhile isBlank).reverse

end SealedEnvelope.Text
