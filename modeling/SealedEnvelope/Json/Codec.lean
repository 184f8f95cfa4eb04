import SealedEnvelope.Decimal.Shortest
import SealedEnvelope.Json.Printer
import SealedEnvelope.NameMap
import SealedEnvelope.Text.Quoted

set_option autoImplicit false

/-! # Values as documents

A `Codec` writes values of a type as documents and reads them back. Reading is strict: a value of
the wrong kind, an unknown or a missing field are reported, each in fixed words. A record is written
as an object with its fields in order. It is read from an object, whose members are taken in
ascending order of their names, or from an array of all its fields in order. -/

namespace SealedEnvelope.Json

/-- What a value is, in messages. -/
def describe : Json → String
  | null => "null"
  | bool b => "boolean \x60" ++ (if b then "true" else "false") ++ "\x60"
  | number (.double bits) => "floating point \x60" ++ Decimal.text bits ++ "\x60"
  | number n => "integer \x60" ++ numberText n ++ "\x60"
  | string s => "string " ++ Text.quoteString s
  | array _ => "sequence"
  | object _ => "map"

/-- Why a document does not denote a value of the wanted type. -/
inductive Mismatch where
  | wrongType (found wanted : String)
  | wrongValue (found wanted : String)
  | wrongLength (length : Nat) (wanted : String)
  | unknownField (name : String) (fields : List String)
  | unknownVariant (name : String) (variants : List String)
  | missingField (name : String)
deriving DecidableEq, Repr

namespace Mismatch

/-- A name in back quotes. -/
def ticked (name : String) : String := "\x60" ++ name ++ "\x60"

/-- The names that would have done. -/
def oneOf : List String → String
  | [only] => ticked only
  | [first, second] => ticked first ++ " or " ++ ticked second
  | names => "one of " ++ ", ".intercalate (names.map ticked)

/-- The mismatch in words. -/
def message : Mismatch → String
  | wrongType found wanted => "invalid type: " ++ found ++ ", expected " ++ wanted
  | wrongValue found wanted => "invalid value: " ++ found ++ ", expected " ++ wanted
  | wrongLength length wanted => s!"invalid length {length}, expected " ++ wanted
  | unknownField name fields => "unknown field " ++ ticked name ++ ", expected " ++ oneOf fields
  | unknownVariant name variants =>
    "unknown variant " ++ ticked name ++ ", expected " ++ oneOf variants
  | missingField name => "missing field " ++ ticked name

end Mismatch

/-- How values of a type are written as documents and read from them. -/
structure Codec (α : Type) where
  encode : α → Json
  decode : Json → Except Mismatch α

namespace Codec

variable {α σ : Type}

/-! ## Scalars -/

/-- A natural number below `bound`, known as `wanted` in messages. -/
def decodeNat (bound : Nat) (wanted : String) (value : Json) : Except Mismatch Nat :=
  match value with
  | .number (.natural n) =>
    if n.toNat < bound then .ok n.toNat else .error (.wrongValue value.describe wanted)
  | .number (.negative _) => .error (.wrongValue value.describe wanted)
  | _ => .error (.wrongType value.describe wanted)

/-- Sizes, of 64 bits. -/
def size : Codec UInt64 where
  encode n := .number (.natural n)
  decode value := UInt64.ofNat <$> decodeNat UInt64.size "usize" value

/-- Counts, of 32 bits. -/
def count : Codec UInt32 where
  encode n := .number (.natural n.toUInt64)
  decode value := UInt32.ofNat <$> decodeNat UInt32.size "u32" value

/-- Octets. -/
def octet : Codec UInt8 where
  encode n := .number (.natural n.toUInt64)
  decode value := UInt8.ofNat <$> decodeNat UInt8.size "u8" value

/-- Strings. -/
def string : Codec String where
  encode s := .string s
  decode
    | .string s => .ok s
    | value => .error (.wrongType value.describe "a string")

/-- A value, or `null` for none. -/
def optional (codec : Codec α) : Codec (Option α) where
  encode
    | some a => codec.encode a
    | none => .null
  decode
    | .null => .ok none
    | value => some <$> codec.decode value

/-! ## Maps -/

/-- Members read one after the other. -/
def decodeEntries (codec : Codec α) : Members → Except Mismatch (List (String × α))
  | [] => .ok []
  | (name, value) :: rest => do
    let a ← codec.decode value
    let others ← decodeEntries codec rest
    return (name, a) :: others

/-- Values under names, as an object. -/
def nameMap (codec : Codec α) : Codec (NameMap α) where
  encode m := .object (m.entries.map fun e => (e.1, codec.encode e.2))
  decode
    | .object members => NameMap.ofList <$> decodeEntries codec (Members.sorted members)
    | value => .error (.wrongType value.describe "a map")

/-! ## Records -/

/-- One field of a record: how it is written, and how a value is put into it. -/
structure Field (σ : Type) where
  name : String
  write : σ → Json
  read : Json → σ → Except Mismatch σ
  /-- An object may leave the field out. -/
  optional : Bool

/-- The field of a record with values of a type. -/
def Field.of (name : String) (codec : Codec α) (get : σ → α) (set : α → σ → σ) : Field σ where
  name
  write s := codec.encode (get s)
  read value s := (codec.decode value).map fun a => set a s
  optional := false

/-- A field that an object may leave out. -/
def Field.mayMiss (field : Field σ) : Field σ := { field with optional := true }

/-- Whether an object leaves the field out though it may not. -/
def Field.isMissing (members : Members) (field : Field σ) : Bool :=
  ¬ field.optional ∧ (Members.find? field.name members).isNone

/-- Members of an object put into the fields of a record. -/
def readMembers (fields : List (Field σ)) : Members → σ → Except Mismatch σ
  | [], s => .ok s
  | (name, value) :: rest, s =>
    match fields.find? (·.name = name) with
    | some field => (field.read value s).bind (readMembers fields rest)
    | none => .error (.unknownField name (fields.map (·.name)))

/-- Items of an array put into the fields of a record, of which `done` are behind them. -/
def readItems (wanted : String) (done : Nat) : List (Field σ) → List Json → σ → Except Mismatch σ
  | field :: fields, value :: rest, s =>
    (field.read value s).bind (readItems wanted (done + 1) fields rest)
  | _ :: _, [], _ => .error (.wrongLength done wanted)
  | [], [], s => .ok s
  | [], rest, _ => .error (.wrongLength (done + rest.length) "fewer elements in array")

/-- A number of elements, in words. -/
def elements (n : Nat) : String := if n = 1 then "1 element" else s!"{n} elements"

/-- Records with these fields; reading starts from `blank`. -/
def record (title : String) (blank : σ) (fields : List (Field σ)) : Codec σ where
  encode s := .object (fields.map fun field => (field.name, field.write s))
  decode
    | .object members => do
      let s ← readMembers fields (Members.sorted members) blank
      match fields.find? fun field => field.isMissing members with
      | some field => throw (.missingField field.name)
      | none => return s
    | .array items =>
      readItems ("struct " ++ title ++ " with " ++ elements fields.length) 0 fields items blank
    | value => .error (.wrongType value.describe ("struct " ++ title))

end Codec

end SealedEnvelope.Json
