import SealedEnvelope.Identifier
import SealedEnvelope.Json.Codec

set_option autoImplicit false

/-! # Settings

The document that fixes every size of the envelope format. A `Settings` value may hold anything the
document's types allow; whether its sizes fit together is for the rules to say
(`SealedEnvelope.Config.Rules`). `Settings.standard` is where every configuration starts, and
`Settings.codec` writes and reads the document. -/

namespace SealedEnvelope

/-- The symmetric cipher and its key. -/
structure CipherSettings where
  algorithm : String
  mode : String
  keyBits : UInt64
  keySize : UInt64
deriving DecidableEq, Repr

/-- The sizes of the three forms of a public key, and the mark of the uncompressed form. -/
structure PublicKeySettings where
  rawLength : UInt64
  length : UInt64
  compressedLength : UInt64
  mark : UInt8
deriving DecidableEq, Repr

/-- The header of the simple mode. -/
structure SimpleSettings where
  overhead : UInt64
deriving DecidableEq, Repr

/-- The header of the single mode, and its length field. -/
structure SingleSettings where
  overhead : UInt64
  dataLengthSize : UInt64
deriving DecidableEq, Repr

/-- The header of the multiple mode: what comes before the recipients, and the recipients' table. -/
structure MultipleSettings where
  overhead : UInt64
  encryptedKeySize : UInt64
  idSize : UInt64
  countSize : UInt64
  maxRecipients : UInt64
deriving DecidableEq, Repr

/-- Chunks of a stream. -/
structure StreamSettings where
  chunkSize : UInt64
  maxChunkSize : UInt64
deriving DecidableEq, Repr

/-- Parameters for deriving a key from a password. -/
structure PasswordProfile where
  hashBytes : UInt64
  saltBytes : UInt64
  iterations : UInt32
  algorithm : String
deriving DecidableEq, Repr

/-- A configuration document. -/
structure Settings where
  curve : String
  derivationPath : Option String
  cipher : CipherSettings
  ivSize : UInt64
  tagSize : UInt64
  publicKey : PublicKeySettings
  simple : SimpleSettings
  single : SingleSettings
  multiple : MultipleSettings
  memberIdLength : UInt64
  idProvider : IdProvider
  profiles : NameMap PasswordProfile
  stream : StreamSettings
deriving DecidableEq, Repr

namespace Settings

/-- The greatest chunk that any configuration allows. -/
def maxChunkSize : UInt64 := 4 * 1024 * 1024

/-- The settings of a new configuration. -/
def standard : Settings where
  curve := "secp256k1"
  derivationPath := some "m/44'/60'/0'/0/0"
  cipher := ⟨"aes", "gcm", 256, 32⟩
  ivSize := 16
  tagSize := 16
  publicKey := ⟨64, 65, 33, 0x04⟩
  simple := ⟨66⟩
  single := ⟨74, 8⟩
  multiple := ⟨68, 129, 12, 2, 65535⟩
  memberIdLength := 12
  idProvider := .objectId
  profiles := .ofList
    [("browser_password", ⟨32, 64, 2000000, "sha512"⟩),
     ("high_security", ⟨64, 32, 5000000, "sha256"⟩),
     ("test_fast", ⟨32, 64, 1000, "sha512"⟩)]
  stream := ⟨1024 * 1024, maxChunkSize⟩

end Settings

/-! ## The document -/

open Json (Codec Mismatch Members)
open Json.Codec (Field)

/-- A provider without parameters, by its name. -/
def IdProvider.ofName? (name : String) : Option IdProvider :=
  [objectId, guid, uuid].find? fun provider => provider.name = name

/-- The parameters of a custom provider; other members are not looked at. -/
def IdProvider.decodeCustom (members : Members) : Except Mismatch IdProvider :=
  match members.find? "byte_length" with
  | some value => IdProvider.custom <$> Codec.size.decode value
  | none => .error (.missingField "byte_length")

/-- A provider from its name and, where given, the value beside it. -/
def IdProvider.decodeVariant (name : String) (value : Option Json) : Except Mismatch IdProvider :=
  match ofName? name with
  | some provider =>
    match value with
    | none | some .null => .ok provider
    | some value => .error (.wrongType value.describe "unit")
  | none =>
    if name = (custom 0).name then
      match value with
      | some (.object members) => decodeCustom members
      | some value => .error (.wrongType value.describe "struct variant")
      | none => .error (.wrongType "unit variant" "struct variant")
    else
      .error (.unknownVariant name ([objectId, guid, uuid, custom 0].map IdProvider.name))

/-- Providers, as a name or as an object of one member. -/
def IdProvider.codec : Codec IdProvider where
  encode
    | custom length =>
      .object [((custom 0).name, .object [("byte_length", .number (.natural length))])]
    | provider => .string provider.name
  decode
    | .string name => decodeVariant name none
    | .object [(name, value)] => decodeVariant name (some value)
    | .object _ => .error (.wrongValue "map" "map with a single key")
    | value => .error (.wrongType value.describe "string or map")

/-- The document's `symmetric` part. -/
def CipherSettings.codec : Codec CipherSettings :=
  .record "SymmetricConfig" ⟨"", "", 0, 0⟩
    [.of "algorithm" .string (·.algorithm) fun a s => { s with algorithm := a },
     .of "mode" .string (·.mode) fun a s => { s with mode := a },
     .of "key_bits" .size (·.keyBits) fun a s => { s with keyBits := a },
     .of "key_size" .size (·.keySize) fun a s => { s with keySize := a }]

/-- The document's `public_key` part. -/
def PublicKeySettings.codec : Codec PublicKeySettings :=
  .record "PublicKeyConfig" ⟨0, 0, 0, 0⟩
    [.of "raw_public_key_length" .size (·.rawLength) fun a s => { s with rawLength := a },
     .of "public_key_length" .size (·.length) fun a s => { s with length := a },
     .of "compressed_public_key_length" .size (·.compressedLength)
       fun a s => { s with compressedLength := a },
     .of "public_key_magic" .octet (·.mark) fun a s => { s with mark := a }]

/-- The document's `simple` part. -/
def SimpleSettings.codec : Codec SimpleSettings :=
  .record "SimpleModeConfig" ⟨0⟩
    [.of "fixed_overhead_size" .size (·.overhead) fun a s => { s with overhead := a }]

/-- The document's `single` part. -/
def SingleSettings.codec : Codec SingleSettings :=
  .record "SingleModeConfig" ⟨0, 0⟩
    [.of "fixed_overhead_size" .size (·.overhead) fun a s => { s with overhead := a },
     .of "data_length_size" .size (·.dataLengthSize) fun a s => { s with dataLengthSize := a }]

/-- The document's `multiple` part. -/
def MultipleSettings.codec : Codec MultipleSettings :=
  .record "MultipleModeConfig" ⟨0, 0, 0, 0, 0⟩
    [.of "fixed_overhead_size" .size (·.overhead) fun a s => { s with overhead := a },
     .of "encrypted_key_size" .size (·.encryptedKeySize)
       fun a s => { s with encryptedKeySize := a },
     .of "recipient_id_size" .size (·.idSize) fun a s => { s with idSize := a },
     .of "recipient_count_size" .size (·.countSize) fun a s => { s with countSize := a },
     .of "max_recipients" .size (·.maxRecipients) fun a s => { s with maxRecipients := a }]

/-- The document's `stream` part. -/
def StreamSettings.codec : Codec StreamSettings :=
  .record "StreamConfig" ⟨0, 0⟩
    [.of "chunk_size" .size (·.chunkSize) fun a s => { s with chunkSize := a },
     .of "max_chunk_size" .size (·.maxChunkSize) fun a s => { s with maxChunkSize := a }]

/-- One entry of the document's `pbkdf2_profiles` part. -/
def PasswordProfile.codec : Codec PasswordProfile :=
  .record "Pbkdf2Profile" ⟨0, 0, 0, ""⟩
    [.of "hash_bytes" .size (·.hashBytes) fun a s => { s with hashBytes := a },
     .of "salt_bytes" .size (·.saltBytes) fun a s => { s with saltBytes := a },
     .of "iterations" .count (·.iterations) fun a s => { s with iterations := a },
     .of "algorithm" .string (·.algorithm) fun a s => { s with algorithm := a }]

namespace Settings

/-- The settings that reading starts from. -/
def blank : Settings :=
  ⟨"", none, ⟨"", "", 0, 0⟩, 0, 0, ⟨0, 0, 0, 0⟩, ⟨0⟩, ⟨0, 0⟩, ⟨0, 0, 0, 0, 0⟩, 0, .objectId, .empty,
   ⟨0, 0⟩⟩

/-- The whole document. A missing derivation path is none. -/
def codec : Codec Settings :=
  .record "ConfigValues" blank
    [.of "curve_name" .string (·.curve) fun a s => { s with curve := a },
     (Field.of "primary_key_derivation_path" (.optional .string) (·.derivationPath)
       fun a s => { s with derivationPath := a }).mayMiss,
     .of "symmetric" CipherSettings.codec (·.cipher) fun a s => { s with cipher := a },
     .of "iv_size" .size (·.ivSize) fun a s => { s with ivSize := a },
     .of "auth_tag_size" .size (·.tagSize) fun a s => { s with tagSize := a },
     .of "public_key" PublicKeySettings.codec (·.publicKey) fun a s => { s with publicKey := a },
     .of "simple" SimpleSettings.codec (·.simple) fun a s => { s with simple := a },
     .of "single" SingleSettings.codec (·.single) fun a s => { s with single := a },
     .of "multiple" MultipleSettings.codec (·.multiple) fun a s => { s with multiple := a },
     .of "member_id_length" .size (·.memberIdLength) fun a s => { s with memberIdLength := a },
     .of "id_provider" IdProvider.codec (·.idProvider) fun a s => { s with idProvider := a },
     .of "pbkdf2_profiles" (.nameMap PasswordProfile.codec) (·.profiles)
       fun a s => { s with profiles := a },
     .of "stream" StreamSettings.codec (·.stream) fun a s => { s with stream := a }]

end Settings

end SealedEnvelope
