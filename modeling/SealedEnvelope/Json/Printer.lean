import SealedEnvelope.Decimal.Shortest
import SealedEnvelope.Json

set_option autoImplicit false

/-! # Writing JSON

`Json.compact` writes a document on one line without spaces, `Json.pretty` over several lines with
two spaces for each level. Members are written in their own order. In strings the quote, the
backslash and the control characters are escaped, the common ones by a letter. -/

namespace SealedEnvelope.Json

/-- One character as it stands in a string. -/
def escapedChar (c : Char) : List Char :=
  if c = '"' then ['\\', '"']
  else if c = '\\' then ['\\', '\\']
  else if c = '\n' then ['\\', 'n']
  else if c = '\r' then ['\\', 'r']
  else if c = '\t' then ['\\', 't']
  else if c.toNat = 8 then ['\\', 'b']
  else if c.toNat = 12 then ['\\', 'f']
  else if c.toNat < 32 then
    ['\\', 'u', '0', '0', Nat.digitChar (c.toNat / 16), Nat.digitChar (c.toNat % 16)]
  else [c]

/-- A string in quotes. -/
def quoted (s : String) : String := String.ofList ('"' :: s.toList.flatMap escapedChar ++ ['"'])

/-- A number in decimal digits. -/
def numberText : JsonNumber → String
  | .natural n => Nat.repr n.toNat
  | .negative n => "-" ++ Nat.repr n.toNat
  | .double bits => Decimal.text bits

/-- The text of a value that holds no others. -/
def scalarText : Json → String
  | .null => "null"
  | .bool true => "true"
  | .bool false => "false"
  | .number n => numberText n
  | .string s => quoted s
  | .array _ => "[]"
  | .object _ => "\x7b\x7d"

mutual

/-- The document on one line. -/
def compact : Json → String
  | .array items => "[" ++ ",".intercalate (compactItems items) ++ "]"
  | .object members => "\x7b" ++ ",".intercalate (compactMembers members) ++ "\x7d"
  | value => scalarText value

/-- Every item on one line. -/
def compactItems : List Json → List String
  | [] => []
  | item :: rest => compact item :: compactItems rest

/-- Every member on one line. -/
def compactMembers : Members → List String
  | [] => []
  | (name, value) :: rest => (quoted name ++ ":" ++ compact value) :: compactMembers rest

end

/-- A line break and the space in front of a line at this level. -/
def lineBreak (level : Nat) : String := String.ofList ('\n' :: List.replicate (2 * level) ' ')

/-- Lines between brackets, one level further in than the brackets. -/
def bracketed (level : Nat) (opening closing : String) (lines : List String) : String :=
  if lines.isEmpty then opening ++ closing
  else
    opening ++ lineBreak (level + 1) ++ ("," ++ lineBreak (level + 1)).intercalate lines
      ++ lineBreak level ++ closing

mutual

/-- The document over several lines, with its own brackets at a level. -/
def prettyAt (level : Nat) : Json → String
  | .array items => bracketed level "[" "]" (prettyItems (level + 1) items)
  | .object members => bracketed level "\x7b" "\x7d" (prettyMembers (level + 1) members)
  | value => scalarText value

/-- Every item at a level. -/
def prettyItems (level : Nat) : List Json → List String
  | [] => []
  | item :: rest => prettyAt level item :: prettyItems level rest

/-- Every member at a level. -/
def prettyMembers (level : Nat) : Members → List String
  | [] => []
  | (name, value) :: rest =>
    (quoted name ++ ": " ++ prettyAt level value) :: prettyMembers level rest

end

/-- The document over several lines. -/
def pretty (value : Json) : String := prettyAt 0 value

end SealedEnvelope.Json
