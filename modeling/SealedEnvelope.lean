import SealedEnvelope.Cipher.Aead
import SealedEnvelope.Cipher.Aes256
import SealedEnvelope.Cipher.Gcm
import SealedEnvelope.Cipher.InPlace
import SealedEnvelope.CommandLine
import SealedEnvelope.CommandLine.Failure
import SealedEnvelope.CommandLine.Files
import SealedEnvelope.CommandLine.Invocation
import SealedEnvelope.CommandLine.KeyText
import SealedEnvelope.CommandLine.Usage
import SealedEnvelope.Config
import SealedEnvelope.Config.Registry
import SealedEnvelope.Config.Rules
import SealedEnvelope.Config.Settings
import SealedEnvelope.Curve.Field
import SealedEnvelope.Curve.Point
import SealedEnvelope.Decimal.Shortest
import SealedEnvelope.Envelope
import SealedEnvelope.Error
import SealedEnvelope.Hash.Hmac
import SealedEnvelope.Hash.Sha256
import SealedEnvelope.Header
import SealedEnvelope.Identifier
import SealedEnvelope.Identifier.ObjectId
import SealedEnvelope.Json
import SealedEnvelope.Json.Codec
import SealedEnvelope.Json.Parser
import SealedEnvelope.Json.Printer
import SealedEnvelope.Key
import SealedEnvelope.KeyDerivation
import SealedEnvelope.KeyWrap
import SealedEnvelope.LengthPrefix
import SealedEnvelope.LengthPrefix.InPlace
import SealedEnvelope.NameMap
import SealedEnvelope.Octets
import SealedEnvelope.Proofs.Admission
import SealedEnvelope.Proofs.Cipher.Aead
import SealedEnvelope.Proofs.Cipher.Gcm
import SealedEnvelope.Proofs.Cipher.InPlace
import SealedEnvelope.Proofs.CommandLine.Effects
import SealedEnvelope.Proofs.CommandLine.Files
import SealedEnvelope.Proofs.CommandLine.RoundTrip
import SealedEnvelope.Proofs.Config.Accepted
import SealedEnvelope.Proofs.Config.Battery
import SealedEnvelope.Proofs.Config.DerivationPath
import SealedEnvelope.Proofs.Config.Document
import SealedEnvelope.Proofs.Config.KeyForms
import SealedEnvelope.Proofs.Config.Layers
import SealedEnvelope.Proofs.Config.Overflow
import SealedEnvelope.Proofs.Config.PathPattern
import SealedEnvelope.Proofs.Config.Provider
import SealedEnvelope.Proofs.Config.Registry
import SealedEnvelope.Proofs.Config.RoundTrip
import SealedEnvelope.Proofs.Config.Schema
import SealedEnvelope.Proofs.Config.WireConstants
import SealedEnvelope.Proofs.Curve.Encoding
import SealedEnvelope.Proofs.Curve.Field
import SealedEnvelope.Proofs.Curve.Group
import SealedEnvelope.Proofs.Curve.Primality
import SealedEnvelope.Proofs.Curve.Scalar
import SealedEnvelope.Proofs.Envelope
import SealedEnvelope.Proofs.Envelope.Acceptance
import SealedEnvelope.Proofs.Envelope.Binding
import SealedEnvelope.Proofs.Envelope.Failure
import SealedEnvelope.Proofs.Envelope.Interoperation
import SealedEnvelope.Proofs.Envelope.Size
import SealedEnvelope.Proofs.Header
import SealedEnvelope.Proofs.Identifier
import SealedEnvelope.Proofs.Identifier.ObjectId
import SealedEnvelope.Proofs.Identifier.Spelling
import SealedEnvelope.Proofs.Interchange
import SealedEnvelope.Proofs.Json.ByName
import SealedEnvelope.Proofs.Json.Codec
import SealedEnvelope.Proofs.Json.Documents
import SealedEnvelope.Proofs.Json.Layers
import SealedEnvelope.Proofs.Json.Merge
import SealedEnvelope.Proofs.Json.Schema
import SealedEnvelope.Proofs.Json.Tokens
import SealedEnvelope.Proofs.Key
import SealedEnvelope.Proofs.KeyWrap
import SealedEnvelope.Proofs.LengthPrefix
import SealedEnvelope.Proofs.LengthPrefix.Forms
import SealedEnvelope.Proofs.Octets
import SealedEnvelope.Proofs.PrivateKey
import SealedEnvelope.Proofs.PublicKey
import SealedEnvelope.Proofs.Reader
import SealedEnvelope.Proofs.RecipientTable
import SealedEnvelope.Proofs.Recovery
import SealedEnvelope.Proofs.Sealing
import SealedEnvelope.Proofs.SecretBuffer
import SealedEnvelope.Proofs.Sequence
import SealedEnvelope.Proofs.Signature
import SealedEnvelope.Proofs.Stream.Admission
import SealedEnvelope.Proofs.Stream.Arguments
import SealedEnvelope.Proofs.Stream.Batch
import SealedEnvelope.Proofs.Stream.Cancellation
import SealedEnvelope.Proofs.Stream.Channel
import SealedEnvelope.Proofs.Stream.Chunk
import SealedEnvelope.Proofs.Stream.Codec
import SealedEnvelope.Proofs.Stream.Counting
import SealedEnvelope.Proofs.Stream.Establish
import SealedEnvelope.Proofs.Stream.Fragmentation
import SealedEnvelope.Proofs.Stream.Frame
import SealedEnvelope.Proofs.Stream.Header
import SealedEnvelope.Proofs.Stream.Intake
import SealedEnvelope.Proofs.Stream.Integrity
import SealedEnvelope.Proofs.Stream.Interoperation
import SealedEnvelope.Proofs.Stream.Layout
import SealedEnvelope.Proofs.Stream.Length
import SealedEnvelope.Proofs.Stream.Nonce
import SealedEnvelope.Proofs.Stream.Opening
import SealedEnvelope.Proofs.Stream.Progress
import SealedEnvelope.Proofs.Stream.Reporting
import SealedEnvelope.Proofs.Stream.Representation
import SealedEnvelope.Proofs.Stream.RoundTrip
import SealedEnvelope.Proofs.Stream.Run
import SealedEnvelope.Proofs.Stream.Sealing
import SealedEnvelope.Proofs.Stream.Truncation
import SealedEnvelope.Proofs.Stream.Verified
import SealedEnvelope.Proofs.Text
import SealedEnvelope.Proofs.Text.Reading
import SealedEnvelope.Proofs.Text.Utf8
import SealedEnvelope.Random
import SealedEnvelope.Reader
import SealedEnvelope.RecipientTable
import SealedEnvelope.SecretBuffer
import SealedEnvelope.Signature
import SealedEnvelope.Stream
import SealedEnvelope.Stream.Chunk
import SealedEnvelope.Stream.Header
import SealedEnvelope.Stream.Progress
import SealedEnvelope.Stream.Run
import SealedEnvelope.Stream.Source
import SealedEnvelope.Text.Base64
import SealedEnvelope.Text.DashedHex
import SealedEnvelope.Text.Hex
import SealedEnvelope.Text.Quoted
import SealedEnvelope.Text.Unprintable
import SealedEnvelope.Text.Utf8
import SealedEnvelope.Version
import SealedEnvelope.Main
