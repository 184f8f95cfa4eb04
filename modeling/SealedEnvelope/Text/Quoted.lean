import SealedEnvelope.Text.Unprintable

set_option autoImplicit false

/-! # Quoted text in messages

Messages that show a piece of a caller's input put it in quotes and escape what would not print: the
quote itself, the backslash, tab, line feed, carriage return and NUL by a letter, every other
unprintable character by its code point in braces. A single character stands between single quotes
(`quoteChar`), a string between double quotes (`quoteString`). -/

namespace SealedEnvelope.Text

/-- A code point in braces, in lower-case hexadecimal. -/
def escapeCode (c : Char) : String :=
  "\\u\x7b" ++ String.ofList (Nat.toDigits 16 c.toNat) ++ "\x7d"

/-- One character as it stands between quotes `quote`. -/
def escapeChar (quote c : Char) : String :=
  if c = Char.ofNat 0 then "\\0"
  else if c = '\t' then "\\t"
  else if c = '\n' then "\\n"
  else if c = '\r' then "\\r"
  else if c = '\\' then "\\\\"
  else if c = quote then String.ofList ['\\', c]
  else if isUnprintable c then escapeCode c
  else String.singleton c

/-- A character between single quotes. -/
def quoteChar (c : Char) : String := "'" ++ escapeChar '\x27' c ++ "'"

/-- A string between double quotes. -/
def quoteString (s : String) : String :=
  "\"" ++ String.join (s.toList.map (escapeChar '\x22')) ++ "\""

end SealedEnvelope.Text
