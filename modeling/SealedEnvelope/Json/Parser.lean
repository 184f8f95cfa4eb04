import SealedEnvelope.Json
import SealedEnvelope.Octets
import SealedEnvelope.Text.Utf8

set_option autoImplicit false

/-! # Reading JSON

`Json.parse` reads a document from the octets of a text. The first fault ends the reading and is
reported with its line and column, both counted in octets; a fault that was found by looking at the
next octet counts that octet, and the end of the text has no octet to count. Of members with the
same name the last one counts. A document may nest 127 levels deep.

Integers of 64 bits are exact. Any other number is a double: digits are gathered into a 64-bit
significand as long as they fit, the rest only shift the decimal exponent, and the significand is
then scaled by a power of ten in double arithmetic. -/

namespace SealedEnvelope.Json

/-- What can be wrong with a text that should be a document. -/
inductive Problem where
  | endInList | endInObject | endInString | endInValue
  | expectedColon | expectedListCommaOrEnd | expectedObjectCommaOrEnd
  | expectedIdent | expectedValue | keyNotString
  | invalidEscape | invalidNumber | numberOutOfRange | invalidCodePoint | controlCharacter
  | loneSurrogate | unfinishedSurrogate
  | trailingComma | trailingCharacters | tooDeep
deriving DecidableEq, Repr

/-- The problem in words. -/
def Problem.message : Problem → String
  | endInList => "EOF while parsing a list"
  | endInObject => "EOF while parsing an object"
  | endInString => "EOF while parsing a string"
  | endInValue => "EOF while parsing a value"
  | expectedColon => "expected \x60:\x60"
  | expectedListCommaOrEnd => "expected \x60,\x60 or \x60]\x60"
  | expectedObjectCommaOrEnd => "expected \x60,\x60 or \x60\x7d\x60"
  | expectedIdent => "expected ident"
  | expectedValue => "expected value"
  | keyNotString => "key must be a string"
  | invalidEscape => "invalid escape"
  | invalidNumber => "invalid number"
  | numberOutOfRange => "number out of range"
  | invalidCodePoint => "invalid unicode code point"
  | controlCharacter => "control character (\\u0000-\\u001F) found while parsing a string"
  | loneSurrogate => "lone leading surrogate in hex escape"
  | unfinishedSurrogate => "unexpected end of hex escape"
  | trailingComma => "trailing comma"
  | trailingCharacters => "trailing characters"
  | tooDeep => "recursion limit exceeded"

/-- A problem and the number of octets read when it was met. -/
structure Fault where
  problem : Problem
  offset : Nat
deriving DecidableEq, Repr

/-- The fault in words, with its line and column in the text. -/
def Fault.message (text : Bytes) (fault : Fault) : String :=
  let read := text.take fault.offset
  let line := 1 + read.count 10
  let column := (read.reverse.takeWhile (· ≠ 10)).length
  fault.problem.message ++ s!" at line {line} column {column}"

/-! ## Scanning -/

/-- What is left of a text, behind the octets read so far. -/
structure Cursor where
  offset : Nat
  rest : Bytes
deriving Repr

/-- A computation that reads the text from the front. -/
abbrev Scan := StateT Cursor (Except Fault)

namespace Scan

/-- A fault behind the octets read so far. -/
def fail {α : Type} (problem : Problem) : Scan α := fun c => .error ⟨problem, c.offset⟩

/-- A fault at the next octet, which is counted if there is one. -/
def failAtNext {α : Type} (problem : Problem) : Scan α := fun c =>
  .error ⟨problem, if c.rest.isEmpty then c.offset else c.offset + 1⟩

/-- The next octet, left unread. -/
def peek : Scan (Option UInt8) := fun c => .ok (c.rest.head?, c)

/-- Reads over `n` octets. -/
def skip (n : Nat) : Scan Unit := fun c => .ok ((), ⟨c.offset + n, c.rest.drop n⟩)

/-- Reads the next octet, if there is one. -/
def next : Scan (Option UInt8) := fun
  | ⟨offset, b :: rest⟩ => .ok (some b, ⟨offset + 1, rest⟩)
  | ⟨offset, []⟩ => .ok (none, ⟨offset, []⟩)

/-- Reads as many octets of a class as there are. -/
def run (isMember : UInt8 → Bool) : Scan Bytes := fun c =>
  let members := c.rest.takeWhile isMember
  .ok (members, ⟨c.offset + members.length, c.rest.drop members.length⟩)

/-- The number of octets left. -/
def remaining : Scan Nat := fun c => .ok (c.rest.length, c)

end Scan

/-- The octet of an ASCII character. -/
def octet (c : Char) : UInt8 := UInt8.ofNat c.toNat

/-- Space, tab, line feed and carriage return stand between tokens. -/
def isSpace (b : UInt8) : Bool := b = 32 || b = 9 || b = 10 || b = 13

/-- The decimal digits. -/
def isDigit (b : UInt8) : Bool := 48 ≤ b && b ≤ 57

/-- Reads over white space; the octet behind it is left unread. -/
def skipSpace : Scan (Option UInt8) := do
  let _ ← Scan.run isSpace
  Scan.peek

/-! ## Words -/

/-- The rest of a word such as `null`. -/
def parseIdent : (expected : List Char) → Scan Unit
  | [] => pure ()
  | c :: expected => do
    match ← Scan.next with
    | none => Scan.fail .endInValue
    | some b => if b = octet c then parseIdent expected else Scan.fail .expectedIdent

/-! ## Numbers -/

/-- A number in the making: digits that fit a 64-bit significand, and a power of ten. -/
structure Parts where
  significand : Nat
  exponent : Int
deriving DecidableEq, Repr

/-- The value of a digit. -/
def digitValue (b : UInt8) : Nat := b.toNat - 48

/-- The significand with one more digit, if that fits 64 bits. -/
@[irreducible]
def withDigit? (significand : Nat) (digit : UInt8) : Option Nat :=
  let n := significand * 10 + digitValue digit
  if n < UInt64.size then some n else none

/-- Digits before the point: they join the significand until one does not fit; that one and all
    behind it only raise the exponent. -/
def Parts.integerDigits (significand : Nat) : Bytes → Parts
  | [] => ⟨significand, 0⟩
  | d :: digits =>
    match withDigit? significand d with
    | some n => integerDigits n digits
    | none => ⟨significand, Int.ofNat (digits.length + 1)⟩

/-- Digits behind the point: each that fits lowers the exponent, the rest are dropped. -/
def Parts.fractionDigits (parts : Parts) : Bytes → Parts
  | [] => parts
  | d :: digits =>
    match withDigit? parts.significand d with
    | some n => fractionDigits ⟨n, parts.exponent - 1⟩ digits
    | none => parts

/-- The power of ten as a double, for exponents up to 308. -/
def powerOfTen (n : Nat) : Float := OfScientific.ofScientific 1 false n

/-- The magnitude of a double made of these parts, unless it is infinite. -/
def Parts.toFloat? (parts : Parts) : Option Float :=
  let f := (UInt64.ofNat parts.significand).toFloat
  let e := parts.exponent
  if parts.significand = 0 then some 0
  else if 308 < e then none
  else if 0 ≤ e then
    let scaled := f * powerOfTen e.toNat
    if scaled.isInf then none else some scaled
  else if -308 ≤ e then some (f / powerOfTen (-e).toNat)
  else if -616 ≤ e then some (f / powerOfTen 308 / powerOfTen (-e - 308).toNat)
  else some 0

/-- The double made of these parts. -/
def parseDouble (negative : Bool) (parts : Parts) : Scan JsonNumber :=
  match parts.toFloat? with
  | some f => pure (.double (if negative then -f else f).toBits)
  | none => Scan.fail .numberOutOfRange

/-- The decimal exponent, for digits whose value stays below 2^31. -/
def exponentWithin (value : Nat) : Bytes → Option Nat
  | [] => some value
  | d :: digits =>
    let n := value * 10 + digitValue d
    if n < 0x80000000 then exponentWithin n digits else none

/-- The digits that carry an exponent beyond 2^31, up to the one that does so. -/
def digitsToOverflow (value : Nat) : Bytes → Nat
  | [] => 0
  | d :: digits =>
    let n := value * 10 + digitValue d
    if n < 0x80000000 then digitsToOverflow n digits + 1 else 1

/-- The exponent of a number, from its mark on. -/
def parseExponent (negative : Bool) (parts : Parts) : Scan JsonNumber := do
  Scan.skip 1
  let sign ← Scan.peek
  if sign = some (octet '+') ∨ sign = some (octet '-') then Scan.skip 1
  let lowers := sign = some (octet '-')
  match ← Scan.peek with
  | none => Scan.fail .endInValue
  | some first =>
    if ¬ isDigit first then
      Scan.skip 1
      Scan.fail .invalidNumber
    else
      fun c =>
        let digits := c.rest.takeWhile isDigit
        let behind := Scan.skip digits.length c
        match exponentWithin 0 digits with
        | some e =>
          let shift := if lowers then -Int.ofNat e else Int.ofNat e
          behind.bind fun (_, c) =>
            parseDouble negative ⟨parts.significand, parts.exponent + shift⟩ c
        | none =>
          if parts.significand ≠ 0 ∧ ¬ lowers then
            .error ⟨.numberOutOfRange, c.offset + digitsToOverflow 0 digits⟩
          else behind.bind fun (_, c) => parseDouble negative ⟨0, 0⟩ c

/-- The fraction of a number, from its point on. -/
def parseFraction (negative : Bool) (parts : Parts) : Scan JsonNumber := do
  Scan.skip 1
  let digits ← Scan.run isDigit
  match digits, ← Scan.peek with
  | [], some _ => Scan.failAtNext .invalidNumber
  | [], none => Scan.failAtNext .endInValue
  | digits, behind =>
    let parts := parts.fractionDigits digits
    if behind = some (octet 'e') ∨ behind = some (octet 'E') then parseExponent negative parts
    else parseDouble negative parts

/-- A number of digits that fit 64 bits: an integer, unless its negation does not fit. -/
def JsonNumber.ofInteger (negative : Bool) (n : Nat) : JsonNumber :=
  if ¬ negative then .natural (UInt64.ofNat n)
  else if 0 < n ∧ n ≤ 1 <<< 63 then .negative (UInt64.ofNat n)
  else .double (-(UInt64.ofNat n).toFloat).toBits

/-- A number, from its first digit on. -/
def parseNumber (negative : Bool) : Scan JsonNumber := do
  match ← Scan.next with
  | none => Scan.fail .endInValue
  | some first =>
    if ¬ isDigit first then Scan.fail .invalidNumber
    else
      let digits ← if first = octet '0' then pure [] else Scan.run isDigit
      let parts := Parts.integerDigits (digitValue first) digits
      match ← Scan.peek with
      | some b =>
        if first = octet '0' ∧ isDigit b then Scan.failAtNext .invalidNumber
        else if b = octet '.' then parseFraction negative parts
        else if b = octet 'e' ∨ b = octet 'E' then parseExponent negative parts
        else finish parts
      | none => finish parts
where
  /-- A number without fraction and exponent. -/
  finish (parts : Parts) : Scan JsonNumber :=
    if parts.exponent = 0 then pure (JsonNumber.ofInteger negative parts.significand)
    else parseDouble negative parts

/-! ## Strings -/

/-- The value of a hexadecimal digit. -/
def hexValue? (b : UInt8) : Option Nat :=
  if isDigit b then some (b.toNat - 48)
  else if octet 'a' ≤ b ∧ b ≤ octet 'f' then some (b.toNat - 87)
  else if octet 'A' ≤ b ∧ b ≤ octet 'F' then some (b.toNat - 55)
  else none

/-- Four hexadecimal digits as a number. -/
def parseHexEscape : Scan Nat := do
  let n ← Scan.remaining
  if n < 4 then
    Scan.skip n
    Scan.fail .endInString
  else fun c =>
    let digits := c.rest.take 4
    let c := ⟨c.offset + 4, c.rest.drop 4⟩
    match digits.mapM hexValue? with
    | some values => .ok (values.foldl (fun acc v => acc * 16 + v) 0, c)
    | none => Scan.fail .invalidEscape c

/-- Reads over an octet that has to follow the first half of a surrogate pair. -/
def expectInPair (expected : Char) : Scan Unit := do
  match ← Scan.next with
  | none => Scan.fail .endInString
  | some b => if b = octet expected then pure () else Scan.fail .unfinishedSurrogate

/-- An escaped code point, from behind its mark on. -/
def parseCodePoint : Scan Nat := do
  let n ← parseHexEscape
  if 0xdc00 ≤ n ∧ n ≤ 0xdfff then Scan.fail .loneSurrogate
  else if n < 0xd800 ∨ 0xdbff < n then pure n
  else
    expectInPair '\\'
    expectInPair 'u'
    let low ← parseHexEscape
    if low < 0xdc00 ∨ 0xdfff < low then Scan.fail .loneSurrogate
    else pure ((n - 0xd800) * 1024 + (low - 0xdc00) + 0x10000)

/-- The octets that an escape stands for, from behind its backslash on. -/
def parseEscape : Scan Bytes := do
  match ← Scan.next with
  | none => Scan.fail .endInString
  | some b =>
    if b = octet '"' ∨ b = octet '\\' ∨ b = octet '/' then pure [b]
    else if b = octet 'b' then pure [8]
    else if b = octet 'f' then pure [12]
    else if b = octet 'n' then pure [10]
    else if b = octet 'r' then pure [13]
    else if b = octet 't' then pure [9]
    else if b = octet 'u' then
      let n ← parseCodePoint
      pure (Text.utf8 (String.singleton (Char.ofNat n)))
    else Scan.fail .invalidEscape

/-- Whether an octet stands for itself in a string. -/
def isPlain (b : UInt8) : Bool := 32 ≤ b && b ≠ octet '"' && b ≠ octet '\\'

/-- The octets of a string up to its closing quote, in at most `pieces` runs of plain octets. -/
def parseStringPieces : (pieces : Nat) → Scan Bytes
  | 0 => Scan.fail .endInString
  | pieces + 1 => do
    let plain ← Scan.run isPlain
    match ← Scan.next with
    | none => Scan.fail .endInString
    | some b =>
      if b = octet '"' then pure plain
      else if b = octet '\\' then
        let escaped ← parseEscape
        let others ← parseStringPieces pieces
        pure (plain ++ escaped ++ others)
      else Scan.fail .controlCharacter

/-- A string, from behind its opening quote on. -/
def parseString : Scan String := do
  let bytes ← parseStringPieces ((← Scan.remaining) + 1)
  match Text.ofUtf8? bytes with
  | some s => pure s
  | none => Scan.fail .invalidCodePoint

/-! ## Lists and objects -/

/-- The items of a list up to its end, in at most `count` rounds. -/
def parseItems (item : Scan Json) (first : Bool) : (count : Nat) → Scan (List Json)
  | 0 => Scan.fail .endInList
  | count + 1 => do
    match ← skipSpace with
    | none => Scan.failAtNext .endInList
    | some b =>
      if b = octet ']' then
        Scan.skip 1
        pure []
      else
        if ¬ first then
          if b ≠ octet ',' then Scan.failAtNext .expectedListCommaOrEnd
          Scan.skip 1
          match ← skipSpace with
          | none => Scan.failAtNext .endInValue
          | some b => if b = octet ']' then Scan.failAtNext .trailingComma
        let value ← item
        let others ← parseItems item false count
        pure (value :: others)

/-- A member of an object, from behind the opening quote of its name on. -/
def parseMember (value : Scan Json) : Scan (String × Json) := do
  let name ← parseString
  match ← skipSpace with
  | none => Scan.failAtNext .endInObject
  | some b =>
    if b ≠ octet ':' then Scan.failAtNext .expectedColon
    Scan.skip 1
    return (name, ← value)

/-- The members of an object up to its end, behind those already read, in at most `count` rounds. -/
def parseMembers (value : Scan Json) (first : Bool) (read : Members) :
    (count : Nat) → Scan Members
  | 0 => Scan.fail .endInObject
  | count + 1 => do
    match ← skipSpace with
    | none => Scan.failAtNext .endInObject
    | some b =>
      if b = octet '\x7d' then
        Scan.skip 1
        pure read
      else
        if ¬ first then
          if b ≠ octet ',' then Scan.failAtNext .expectedObjectCommaOrEnd
          Scan.skip 1
          match ← skipSpace with
          | none => Scan.failAtNext .endInValue
          | some b => if b = octet '\x7d' then Scan.failAtNext .trailingComma
        match ← Scan.peek with
        | some 34 => Scan.skip 1
        | _ => Scan.failAtNext .keyNotString
        let (name, v) ← parseMember value
        parseMembers value false (read.set name v) count

/-- A document whose items and members are read by `nested`; without it, a document that holds no
    others. -/
def parseValueWith (nested : Option (Scan Json)) : Scan Json := do
  match ← skipSpace with
  | none => Scan.failAtNext .endInValue
  | some b =>
    if b = octet 'n' then
      Scan.skip 1
      parseIdent ['u', 'l', 'l']
      pure .null
    else if b = octet 't' then
      Scan.skip 1
      parseIdent ['r', 'u', 'e']
      pure (.bool true)
    else if b = octet 'f' then
      Scan.skip 1
      parseIdent ['a', 'l', 's', 'e']
      pure (.bool false)
    else if b = octet '-' then
      Scan.skip 1
      return .number (← parseNumber true)
    else if isDigit b then return .number (← parseNumber false)
    else if b = octet '"' then
      Scan.skip 1
      return .string (← parseString)
    else if b = octet '[' ∨ b = octet '\x7b' then
      match nested with
      | none => Scan.failAtNext .tooDeep
      | some value =>
        Scan.skip 1
        let count := (← Scan.remaining) + 1
        if b = octet '[' then return .array (← parseItems value true count)
        else return .object (← parseMembers value true [] count)
    else Scan.failAtNext .expectedValue

/-- A document that may nest `depth` levels deep. -/
def parseValue : (depth : Nat) → Scan Json
  | 0 => parseValueWith none
  | depth + 1 => parseValueWith (some (parseValue depth))

/-- The document that a text holds, and nothing but white space behind it. -/
def parse (text : Bytes) : Except Fault Json :=
  let document : Scan Json := do
    let value ← parseValue 127
    match ← skipSpace with
    | none => pure value
    | some _ => Scan.failAtNext .trailingCharacters
  Prod.fst <$> document ⟨0, text⟩

end SealedEnvelope.Json
