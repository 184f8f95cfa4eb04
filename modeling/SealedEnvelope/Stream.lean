import SealedEnvelope.Envelope
import SealedEnvelope.Stream.Chunk
import SealedEnvelope.Stream.Run
import SealedEnvelope.Stream.Source

set_option autoImplicit false

/-! # Streams

Encryption and decryption of payloads of any size, chunk by chunk. The key is established once, as
for an envelope: for one recipient it is derived from the shared secret, for several a random key is
wrapped for each. Encryption reads one chunk ahead to see which is the last; an empty payload is one
empty chunk. Decryption hands out each chunk once its tag is verified, expects the numbers in order,
the last chunk marked, and nothing behind it. Before every chunk the caller may cancel. -/

namespace SealedEnvelope.Stream

/-- Where a stream stands before a chunk: the chunk's number, and the octets read so far. -/
structure Checkpoint where
  chunk : Nat
  taken : Nat
deriving DecidableEq, Repr

/-- What a caller may choose for one stream. -/
structure Options where
  /-- The plaintext octets expected in all. -/
  total : Option Nat
  /-- Whether the caller has cancelled when the stream comes to a checkpoint. -/
  cancelled : Checkpoint → Bool
  /-- The chunk size, for encryption, if not the configured one. -/
  chunkSize : Option Nat
  /-- Hold the plaintext back, for decryption, until the whole stream is verified. -/
  withhold : Bool

/-- Nothing chosen. -/
def Options.none : Options := ⟨.none, fun _ => false, .none, false⟩

/-- What a successful stream has processed. -/
structure Summary where
  kind : Kind
  chunks : Nat
  plaintextBytes : Nat
deriving DecidableEq, Repr

/-- What has become of a stream, as the caller sees it. -/
structure Report where
  written : Bytes
  snapshots : List Snapshot
  outcome : Except Error Summary

/-- The report of a stream that fails before anything is written. -/
def Report.failed (e : Error) : Report := ⟨[], [], .error e⟩

/-- The report of a run that has been delivered. -/
def Result.report (result : Result) (total : Option Nat) (kind : Kind) : Report :=
  { written := result.written
    snapshots := Stream.snapshots total result.reported
    outcome := result.outcome.map fun _ =>
      { kind
        chunks := result.reported.length
        plaintextBytes := plainOf result.reported } }

/-- Ends a run if the caller has cancelled. -/
def checkCancelled (cancelled : Checkpoint → Bool) (chunk : Nat) : Intake Unit := do
  if cancelled ⟨chunk, ← Intake.taken⟩ then throw .cancelled

/-- The number behind a chunk's, if there is one. -/
def nextIndex (index : Nat) : Except Error Nat :=
  if index < lastIndex then .ok (index + 1) else .error (.lengthTooLong (lastIndex + 1) lastIndex)

/-! ## Encryption -/

/-- The chunk size of a stream to be written. -/
def resolveChunkSize (config : Config) (requested : Option Nat) : Except Error Nat :=
  let chunkSize := requested.getD config.chunkSize
  if chunkSize = 0 then .error (.invalidOverride "chunk size must be at least 1 byte")
  else if config.maxChunkSize < chunkSize then
    .error (.lengthTooLong chunkSize config.maxChunkSize)
  else .ok chunkSize

/-- The chunk behind `current`: none is read behind a short one. -/
def readAhead (chunkSize : Nat) (current : Bytes) : Intake Bytes :=
  if current.length = chunkSize then Intake.fill chunkSize else pure []

/-- Encrypts the chunk `current` and those the source still holds, at most `fuel` of them; a run
    without fuel ends as a cancelled one does. -/
def closeFrom (ctx : Context) (chunkSize : Nat) (cancelled : Checkpoint → Bool) :
    (fuel : Nat) → (index : Nat) → (current : Bytes) → Source → Run
  | 0, _, _, _ => .ending (.error .cancelled)
  | fuel + 1, index, current, source =>
    let step : Intake Bytes := do
      checkCancelled cancelled index
      readAhead chunkSize current
    match step source with
    | .error e => .ending (.error e)
    | .ok (following, source) =>
      let chunk := ctx.close index following.isEmpty current
      let rest :=
        if following.isEmpty then Run.ending (.ok ())
        else
          match nextIndex index with
          | .error e => Run.ending (.error e)
          | .ok index => closeFrom ctx chunkSize cancelled fuel index following source
      rest.cons ⟨chunk.octets, current.length⟩

/-- Encrypts everything that a source holds. -/
def closeAll (ctx : Context) (chunkSize : Nat) (cancelled : Checkpoint → Bool) (source : Source) :
    Run :=
  match Intake.fill chunkSize source with
  | .error e => .ending (.error e)
  | .ok (first, source) =>
    closeFrom ctx chunkSize cancelled (source.bytes.length + 1) 0 first source

/-- The header of a stream and its key. -/
structure Established where
  header : Header
  key : Octets 32
deriving DecidableEq, Repr

/-- Establishes a stream for one public key, which is read behind the first draw. -/
def establishForOne (config : Config) (chunkSize : Nat) (publicKey : Bytes) :
    Sealing Established := do
  let ephemeral ← Draw.privateKey
  let peer ← parsePublicKey publicKey
  let baseIv ← Draw.iv
  let header :=
    { ephemeral := ephemeral.publicKey.compressed, baseIv
      chunkSize := UInt32.ofNat chunkSize, recipients := none }
  return { header, key := config.sharedKey ephemeral peer }

/-- Establishes a stream for several recipients, which are checked behind the first draw. -/
def establishForMany (config : Config) (chunkSize : Nat) (recipients : List Recipient) :
    Sealing Established := do
  let ephemeral ← Draw.privateKey
  config.checkRecipients recipients
  let key ← Draw.messageKey
  let entries ← KeyWrap.wrapAll config ephemeral key recipients
  let baseIv ← Draw.iv
  let header :=
    { ephemeral := ephemeral.publicKey.compressed, baseIv
      chunkSize := UInt32.ofNat chunkSize, recipients := some entries }
  return { header, key }

/-- Establishes a stream in a mode. The simple and single modes take exactly one recipient. -/
def establish (config : Config) (mode : Mode) (recipients : List Recipient)
    (requested : Option Nat) : Sealing Established :=
  match mode with
  | .simple | .single => do
    let recipient ← Envelope.soleRecipient recipients
    let chunkSize ← resolveChunkSize config requested
    establishForOne config chunkSize recipient.publicKey
  | .multiple => do
    let chunkSize ← resolveChunkSize config requested
    establishForMany config chunkSize recipients

/-- Encrypts a source into a sink under what has been established. -/
def encryptUnder (config : Config) (established : Established) (source : Source) (sink : Sink)
    (options : Options) : Except Error Report := do
  let header := established.header
  let bytes ← header.encode config
  let opening := (← LengthPrefix.append [] bytes.length) ++ bytes
  let ctx := ⟨established.key, header.baseIv, Header.hash bytes⟩
  let run := closeAll ctx header.chunkSize.toNat options.cancelled source
  return (run.deliver sink opening).report options.total header.kind

/-- Encrypts a source into a sink for one or several recipients. -/
def encrypt (config : Config) (mode : Mode) (recipients : List Recipient) (source : Source)
    (sink : Sink) (options : Options) : Draw Report := do
  let result ← ExceptT.run do
    let established ← establish config mode recipients options.chunkSize
    encryptUnder config established source sink options
  match result with
  | .ok report => return report
  | .error e => return .failed e

/-! ## Decryption -/

/-- The header at the front of a stream, and its octets. -/
def readHeader (config : Config) : Intake (Header × Bytes) := do
  let length ← Intake.length "stream header"
  let max := Header.maxEncodedLength config
  if max < length then throw (.lengthTooLong length max)
  let bytes ← Intake.exactly length "stream header"
  return (← Header.decode config bytes, bytes)

/-- The key of a stream, for the owner of a private key and, where there are several recipients,
    of an identifier. -/
def recoverKey (config : Config) (key : PrivateKey) (id : Option Bytes) (header : Header) :
    Except Error (Octets 32) :=
  match header.recipients with
  | none =>
    match parsePublicKey header.ephemeral.bytes with
    | .ok peer => .ok (config.sharedKey key peer)
    | .error _ => .error .decryptionFailed
  | some entries =>
    match id with
    | none =>
      .error (.invalidIdentifier "recipient id required for multi-recipient streams")
    | some id =>
      match entries.find? (·.id = id) with
      | some entry => KeyWrap.unwrap config key header.ephemeral entry
      | none => .error .recipientNotFound

/-- Refuses a chunk length out of bounds. -/
def checkChunkLength (chunkSize index length : Nat) : Except Error Unit :=
  let max := chunkSize + Aead.tagSize
  if max < length then .error (.lengthTooLong length max)
  else if length < Aead.tagSize then
    .error (.streamTruncated s!"chunk {index} is shorter than its auth tag")
  else .ok ()

/-- Reads the number of the next chunk, which has to be `expected`. -/
def readIndex (expected : Nat) : Intake Unit := do
  let bytes ← Intake.fill 4
  if bytes.isEmpty then
    throw (.streamTruncated s!"stream ended after {expected} chunks without a final chunk")
  if bytes.length < 4 then
    throw (.streamTruncated s!"chunk {expected} sequence number cut short")
  let index := ofBigEndian bytes
  if index ≠ expected then throw (.chunkOutOfSequence expected index)

/-- Reads the flags of a chunk. -/
def readFlags (index : Nat) : Intake UInt8 := do
  match ← Intake.fill 1 with
  | [] => throw (.streamTruncated s!"chunk {index} flags missing")
  | flags :: _ =>
    if flags &&& ~~~finalFlag ≠ 0 then
      throw (.malformedHeader (s!"chunk {index} has unknown flags " ++ Error.octetText flags))
    return flags

/-- Reads a chunk of at most `chunkSize` octets of plaintext. -/
def readChunk (chunkSize expected : Nat) : Intake Chunk := do
  readIndex expected
  let flags ← readFlags expected
  let length ← Intake.length "chunk"
  checkChunkLength chunkSize expected length
  let bytes ← Intake.exactly length s!"chunk {expected}"
  match Octets.ofBytes? 16 (bytes.drop (length - Aead.tagSize)) with
  | some tag =>
    return { index := expected, flags, ciphertext := bytes.take (length - Aead.tagSize), tag }
  | none => throw .decryptionFailed

/-- Reads a chunk and verifies it. -/
def openNext (ctx : Context) (chunkSize : Nat) (cancelled : Checkpoint → Bool) (expected : Nat) :
    Intake (Chunk × Bytes) := do
  checkCancelled cancelled expected
  let chunk ← readChunk chunkSize expected
  match ctx.open? chunk with
  | some plaintext => return (chunk, plaintext)
  | none => throw .decryptionFailed

/-- Nothing may follow the last chunk. -/
def checkEnd : Intake Unit := do
  if (← Intake.fill 1) ≠ [] then throw .trailingData

/-- Decrypts the chunks that a source still holds, at most `fuel` of them; a run without fuel ends
    as a cancelled one does. -/
def openFrom (ctx : Context) (chunkSize : Nat) (cancelled : Checkpoint → Bool) :
    (fuel : Nat) → (expected : Nat) → Source → Run
  | 0, _, _ => .ending (.error .cancelled)
  | fuel + 1, expected, source =>
    match openNext ctx chunkSize cancelled expected source with
    | .error e => .ending (.error e)
    | .ok ((chunk, plaintext), source) =>
      let rest :=
        if chunk.isFinal then Run.ending (Prod.fst <$> checkEnd source)
        else
          match nextIndex expected with
          | .error e => Run.ending (.error e)
          | .ok expected => openFrom ctx chunkSize cancelled fuel expected source
      rest.cons ⟨plaintext, plaintext.length⟩

/-- What is known of a stream once its header is read: the header, what its chunks share, and the
    source behind it. -/
structure Opened where
  header : Header
  context : Context
  source : Source

/-- Reads the header of a stream and recovers its key. -/
def openHeader (config : Config) (key : PrivateKey) (id : Option Bytes) (source : Source) :
    Except Error Opened := do
  let ((header, bytes), source) ← readHeader config source
  let streamKey ← recoverKey config key id header
  return { header, context := ⟨streamKey, header.baseIv, Header.hash bytes⟩, source }

/-- The chunks of a stream whose header is read. -/
def Opened.run (opened : Opened) (cancelled : Checkpoint → Bool) : Run :=
  openFrom opened.context opened.header.chunkSize.toNat cancelled (opened.source.bytes.length + 1) 0
    opened.source

/-- Decrypts a source into a sink, for the owner of a private key. -/
def decryptFor (config : Config) (key : PrivateKey) (id : Option Bytes) (source : Source)
    (sink : Sink) (options : Options) : Report :=
  match openHeader config key id source with
  | .error e => .failed e
  | .ok opened =>
    let run := opened.run options.cancelled
    let result := if options.withhold then run.deliverWithheld sink else run.deliver sink []
    result.report options.total opened.header.kind

/-- Decrypts a source into a sink, with a private key given as octets. -/
def decrypt (config : Config) (privateKey : Bytes) (id : Option Bytes) (source : Source)
    (sink : Sink) (options : Options) : Report :=
  match PrivateKey.ofBytes privateKey with
  | .error e => .failed e
  | .ok key => decryptFor config key id source sink options

end SealedEnvelope.Stream
