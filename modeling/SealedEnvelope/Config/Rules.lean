import SealedEnvelope.Config.Settings
import SealedEnvelope.Key

set_option autoImplicit false

/-! # The rules of a configuration

`violations` lists, in a fixed order, every rule that a settings document breaks. No rule hides
another, so a document with several faults shows them all. Some rules compare a declared size with a
sum or product of others, and the sizes in a document are any 64-bit numbers. `battery` reckons in
64 bits, as the sizes are held: it lists the broken rules, or ends in an overflow with nothing
listed. -/

namespace SealedEnvelope

/-! ## Derivation paths -/

/-- Where a reader of a derivation path stands. -/
inductive PathState where
  /-- Before the leading `m`. -/
  | start
  /-- Behind the leading `m`. -/
  | root
  /-- Behind a slash. -/
  | slash
  /-- Behind a digit. -/
  | digits
  /-- Behind an apostrophe. -/
  | hardened
deriving DecidableEq, Repr

namespace PathState

/-- The state behind one more character, if the character may stand there. -/
def next : PathState → Char → Option PathState
  | start, c => if c = 'm' then some root else none
  | root, c => if c = '/' then some slash else none
  | slash, c => if c.isDigit then some digits else none
  | digits, c =>
    if c.isDigit then some digits
    else if c = '\x27' then some hardened
    else if c = '/' then some slash
    else none
  | hardened, c => if c = '/' then some slash else none

/-- The path may end here. -/
def isFinal : PathState → Bool
  | digits | hardened => true
  | _ => false

/-- Whether the rest of a path may follow. -/
def accepts : PathState → List Char → Bool
  | state, [] => state.isFinal
  | state, c :: rest =>
    match state.next c with
    | some state => accepts state rest
    | none => false

end PathState

/-- A derivation path is `m` and one or more components, each a slash, ASCII digits, and at most one
    apostrophe. -/
def isDerivationPath (path : String) : Bool := PathState.start.accepts path.toList

namespace Settings

/-! ## Fixed sizes -/

/-- Octets of a symmetric key. -/
def requiredKeySize : UInt64 := 32

/-- Octets of an initialisation vector. -/
def requiredIvSize : UInt64 := 16

/-- Octets of an authentication tag. -/
def requiredTagSize : UInt64 := 16

/-- Octets of the recipient count. -/
def requiredCountSize : UInt64 := 2

/-- Octets of the single mode's length field. -/
def requiredDataLengthSize : UInt64 := 8

/-- The most recipients that the count can express. -/
def recipientLimit : UInt64 := 65535

/-- The curves that keys may lie on, with the octets of their two coordinates. -/
def curves : List (String × UInt64) := [("secp256k1", UInt64.ofNat rawKeySize)]

/-! ## Reckoned sizes -/

/-- The sums and products of declared sizes with which rules compare other declared sizes. -/
structure Reckoned where
  keyBits : Nat
  publicKeyLength : Nat
  wrappedKeySize : Nat
  simpleOverhead : Nat
  singleOverhead : Nat
  multipleOverhead : Nat
deriving DecidableEq, Repr

/-- What the rules reckon, exactly. -/
def exact (s : Settings) : Reckoned where
  keyBits := s.cipher.keySize.toNat * 8
  publicKeyLength := s.publicKey.rawLength.toNat + 1
  wrappedKeySize :=
    s.publicKey.length.toNat + s.ivSize.toNat + s.tagSize.toNat + s.cipher.keySize.toNat
  simpleOverhead := 1 + s.publicKey.compressedLength.toNat + s.ivSize.toNat + s.tagSize.toNat
  singleOverhead :=
    1 + s.publicKey.compressedLength.toNat + s.ivSize.toNat + s.tagSize.toNat
      + s.single.dataLengthSize.toNat
  multipleOverhead :=
    1 + s.publicKey.compressedLength.toNat + s.ivSize.toNat + s.tagSize.toNat
      + s.multiple.countSize.toNat

/-- A product of two sizes, if it fits in 64 bits. -/
def times (m n : Nat) : Except Overflow Nat :=
  if m * n < UInt64.size then .ok (m * n) else .error .product

/-- A sum of two sizes, if it fits in 64 bits. -/
def plus (m n : Nat) : Except Overflow Nat :=
  if m + n < UInt64.size then .ok (m + n) else .error .sum

/-- What the rules reckon, step by step in 64 bits. -/
def reckon (s : Settings) : Except Overflow Reckoned := do
  let keyBits ← times s.cipher.keySize.toNat 8
  let publicKeyLength ← plus s.publicKey.rawLength.toNat 1
  let frame ← plus (← plus s.publicKey.length.toNat s.ivSize.toNat) s.tagSize.toNat
  let wrappedKeySize ← plus frame s.cipher.keySize.toNat
  let frame ← plus (← plus 1 s.publicKey.compressedLength.toNat) s.ivSize.toNat
  let simpleOverhead ← plus frame s.tagSize.toNat
  let singleOverhead ← plus simpleOverhead s.single.dataLengthSize.toNat
  let multipleOverhead ← plus simpleOverhead s.multiple.countSize.toNat
  return { keyBits, publicKeyLength, wrappedKeySize, simpleOverhead, singleOverhead,
           multipleOverhead }

/-! ## The battery -/

/-- The violation of a rule, if it does not hold. -/
def demand (holds : Prop) [Decidable holds] (rule detail : String) : List Violation :=
  if holds then [] else [⟨rule, detail⟩]

/-- A size in decimal digits. -/
def show64 (n : UInt64) : String := Nat.repr n.toNat

/-- The recipients' identifiers have the provider's width everywhere. -/
def idViolations (s : Settings) : List Violation :=
  (match s.idProvider with
   | .custom length =>
     demand (IdProvider.CustomLength length.toNat) "recipient_id.provider"
       s!"custom identifier length {length.toNat} outside 1-255"
   | _ => [])
  ++ demand (s.memberIdLength.toNat = s.idProvider.byteLength
        ∧ s.multiple.idSize.toNat = s.idProvider.byteLength)
      "recipient_id.consistency"
      (s!"member_id_length ({s.memberIdLength.toNat}), multiple.recipient_id_size "
        ++ s!"({s.multiple.idSize.toNat}) and {s.idProvider.name} provider length "
        ++ s!"({s.idProvider.byteLength}) must be equal")

/-- The coordinates have the size that the curve asks for; an unknown curve asks for none. -/
def coordinateViolations (s : Settings) : List Violation :=
  match curves.find? (·.1 = s.curve) with
  | some (_, expected) =>
    demand (s.publicKey.rawLength = expected) "algorithm.public_key_size"
      (s!"raw_public_key_length {s.publicKey.rawLength.toNat} bytes, {s.curve} keys are "
        ++ show64 expected)
  | none => []

/-- The derivation path, if there is one, is well formed. -/
def pathViolations (s : Settings) : List Violation :=
  match s.derivationPath with
  | some path =>
    demand (isDerivationPath path = true) "algorithm.derivation_path"
      ("'" ++ path ++ "' is not a valid derivation path")
  | none => []

/-- The curve and the cipher are the ones that the engine has. -/
def algorithmViolations (s : Settings) (n : Reckoned) : List Violation :=
  demand (s.curve ∈ curves.map Prod.fst) "algorithm.curve"
    ("unsupported curve '" ++ s.curve ++ "' (supported: "
      ++ ", ".intercalate (curves.map Prod.fst) ++ ")")
  ++ s.coordinateViolations
  ++ demand (s.cipher.keySize = requiredKeySize) "algorithm.key_size"
    s!"symmetric key size {s.cipher.keySize.toNat} bytes, expected {requiredKeySize.toNat}"
  ++ demand (s.cipher.keyBits.toNat = n.keyBits) "algorithm.key_bits"
    (s!"key_bits {s.cipher.keyBits.toNat} does not match key_size {s.cipher.keySize.toNat} "
      ++ "bytes")
  ++ demand (s.cipher.algorithm = "aes" ∧ s.cipher.mode = "gcm") "algorithm.cipher"
    ("unsupported cipher " ++ s.cipher.algorithm ++ "-" ++ s.cipher.mode ++ " (only aes-gcm)")
  ++ demand (s.ivSize = requiredIvSize) "algorithm.iv_size"
    s!"iv_size {s.ivSize.toNat} bytes, expected {requiredIvSize.toNat}"
  ++ demand (s.tagSize = requiredTagSize) "algorithm.auth_tag_size"
    s!"auth_tag_size {s.tagSize.toNat} bytes, expected {requiredTagSize.toNat}"
  ++ s.pathViolations

/-- One profile's parameters lie within bounds. -/
def profileViolations (name : String) (p : PasswordProfile) : List Violation :=
  demand (1000 ≤ p.iterations ∧ p.iterations ≤ 10000000) "profile.iterations"
    ("profile '" ++ name ++ s!"': iterations {p.iterations.toNat} outside [1000, 10000000]")
  ++ demand (16 ≤ p.saltBytes ∧ p.saltBytes ≤ 256) "profile.salt_bytes"
    ("profile '" ++ name ++ s!"': salt {p.saltBytes.toNat} bytes outside [16, 256]")
  ++ demand (16 ≤ p.hashBytes ∧ p.hashBytes ≤ 64) "profile.hash_bytes"
    ("profile '" ++ name ++ s!"': output {p.hashBytes.toNat} bytes outside [16, 64]")

/-- A declared overhead is the one reckoned from the parts. -/
def overheadViolations (rule : String) (declared : UInt64) (expected : Nat) : List Violation :=
  demand (declared.toNat = expected) rule
    s!"fixed_overhead_size {declared.toNat} != computed {expected}"

/-- The sizes of keys, fields and headers fit together. -/
def frameViolations (s : Settings) (n : Reckoned) : List Violation :=
  demand (s.publicKey.length.toNat = n.publicKeyLength) "frame.public_key_length"
    (s!"public_key_length {s.publicKey.length.toNat} != raw_public_key_length "
      ++ s!"{s.publicKey.rawLength.toNat} + 1")
  -- Half of a length leaves room for one more, so this sum needs no reckoning of its own.
  ++ demand (s.publicKey.compressedLength = s.publicKey.rawLength / 2 + 1)
    "frame.compressed_public_key_length"
    (s!"compressed_public_key_length {s.publicKey.compressedLength.toNat} != "
      ++ "raw_public_key_length / 2 + 1")
  ++ demand (s.multiple.encryptedKeySize.toNat = n.wrappedKeySize) "frame.encrypted_key_size"
    (s!"encrypted_key_size {s.multiple.encryptedKeySize.toNat} != public key "
      ++ s!"{s.publicKey.length.toNat} + iv {s.ivSize.toNat} + tag {s.tagSize.toNat} + key "
      ++ s!"{s.cipher.keySize.toNat} ({n.wrappedKeySize})")
  ++ demand (s.multiple.countSize = requiredCountSize) "frame.recipient_count_size"
    (s!"recipient_count_size {s.multiple.countSize.toNat} bytes, the count field is a u16 "
      ++ s!"({requiredCountSize.toNat} bytes)")
  ++ demand (0 < s.multiple.maxRecipients ∧ s.multiple.maxRecipients ≤ recipientLimit)
    "frame.max_recipients"
    s!"max_recipients {s.multiple.maxRecipients.toNat} outside [1, {recipientLimit.toNat}]"
  ++ demand (s.single.dataLengthSize = requiredDataLengthSize) "frame.data_length_size"
    (s!"data_length_size {s.single.dataLengthSize.toNat} bytes, expected "
      ++ show64 requiredDataLengthSize)
  ++ overheadViolations "frame.simple_overhead" s.simple.overhead n.simpleOverhead
  ++ overheadViolations "frame.single_overhead" s.single.overhead n.singleOverhead
  ++ overheadViolations "frame.multiple_overhead" s.multiple.overhead n.multipleOverhead

/-- Chunks have a size, and none is larger than a stream may use. -/
def streamViolations (s : Settings) : List Violation :=
  demand (0 < s.stream.chunkSize ∧ s.stream.chunkSize ≤ s.stream.maxChunkSize
      ∧ s.stream.maxChunkSize ≤ maxChunkSize)
    "stream.chunk_size"
    (s!"need 1 <= chunk_size ({s.stream.chunkSize.toNat}) <= max_chunk_size "
      ++ s!"({s.stream.maxChunkSize.toNat}) <= {maxChunkSize.toNat}")

/-- Every rule that the settings break, given what the rules reckon. -/
def violationsBy (s : Settings) (n : Reckoned) : List Violation :=
  s.idViolations
  ++ s.algorithmViolations n
  ++ s.profiles.entries.flatMap (fun e => profileViolations e.1 e.2)
  ++ s.frameViolations n
  ++ s.streamViolations

/-- Every rule that the settings break. -/
def violations (s : Settings) : List Violation := s.violationsBy s.exact

/-- Tries every rule, with sizes reckoned in 64 bits. -/
def battery (s : Settings) : Except Overflow (List Violation) := return s.violationsBy (← s.reckon)

end Settings

end SealedEnvelope
