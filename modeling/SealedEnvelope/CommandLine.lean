import SealedEnvelope.CommandLine.Invocation
import SealedEnvelope.CommandLine.KeyText
import SealedEnvelope.Json.Printer
import SealedEnvelope.Stream
import SealedEnvelope.Version

set_option autoImplicit false

/-! # Carrying out commands

`CommandLine.run` carries out an invocation on a tree of files. What comes of it is an `Outcome`:
the lines that were printed, the files as they are then, and the failure if there was one. A command
touches no file but its output. A buffered command that fails leaves that file as it was; a stream
creates it before anything is read, and removes it again when it fails. An interrupt cancels a
stream, which looks for it before every chunk. What is logged meanwhile, such as the progress of a
stream, is no part of an outcome. -/

namespace SealedEnvelope.CommandLine

/-- What has come of a command. -/
structure Outcome where
  lines : List String
  files : Files
  failure : Option Failure
deriving DecidableEq, Repr

namespace Outcome

/-- A command that has succeeded. -/
def done (files : Files) (lines : List String) : Outcome := ⟨lines, files, none⟩

/-- A command that has failed before it printed anything. -/
def failed (files : Files) (failure : Failure) : Outcome := ⟨[], files, some failure⟩

/-- A command that only prints. -/
def printed (files : Files) : Except Error (List String) → Outcome
  | .ok lines => done files lines
  | .error e => failed files (.engine e)

/-- All that was printed. -/
def stdout (o : Outcome) : String := String.join (o.lines.map fun line => line ++ "\n")

end Outcome

/-! ## Configuration -/

/-- The configuration from a file of overrides, or the standard one. -/
def loadConfig (files : Files) : Option String → Except Failure Config
  | none => .ok .standard
  | some path => do
    let text ← (files.readText path).mapError (.file .readConfig path)
    let overrides ← (Json.parse text).mapError (.configText path text)
    (Config.build overrides).mapError .ofConfig

/-! ## Keys and identifiers -/

/-- The lines that show a new key. -/
def keyLines (key : PrivateKey) (json uncompressed : Bool) : List String :=
  let privateText := Text.Hex.encode key.octets.bytes
  let publicText := Text.Hex.encode key.publicKey.compressed.bytes
  let fullText := Text.Hex.encode key.publicKey.uncompressed.bytes
  if json then
    let members :=
      [("private_key", Json.string privateText), ("public_key", Json.string publicText)]
    let full := if uncompressed then [("public_key_uncompressed", Json.string fullText)] else []
    [(Json.object (members ++ full)).pretty]
  else
    ["🔑 Private key: " ++ privateText, "📢 Public key:  " ++ publicText]
      ++ if uncompressed then ["   Uncompressed: " ++ fullText] else []

/-- New identifiers. Object identifiers come from one generator, all at one clock reading. -/
def drawIds (provider : IdProvider) (clock : Int) (count : Nat) : Draw (List Bytes) :=
  match provider with
  | .objectId => do
    let generator ← ObjectId.Generator.draw
    return (generator.run (List.replicate count clock)).map Octets.bytes
  | _ => Draw.forEach (List.replicate count clock) provider.draw

/-- The line that shows an identifier. -/
def checkedLine (provider : IdProvider) (id : Bytes) : String :=
  s!"✅ Valid {provider.name} id ({id.length} bytes): " ++ Text.Hex.encode id

/-! ## Configuration and version -/

/-- A text brought to a width with spaces. -/
def padded (width : Nat) (text : String) : String :=
  text ++ String.ofList (List.replicate (width - text.length) ' ')

/-- What each mode adds to a plaintext, up to the first that cannot be reckoned. -/
def overheadLines (config : Config) (recipients : Nat) : List Mode → List String × Option Failure
  | [] => ([], none)
  | mode :: rest =>
    match Envelope.encryptedLength config mode 0 (if mode = .multiple then recipients else 1) with
    | .ok overhead =>
      let (lines, failure) := overheadLines config recipients rest
      ((padded 8 mode.name ++ s!" {overhead} bytes") :: lines, failure)
    | .error e => ([], some (.engine e))

/-- The lines that tell the version. -/
def versionLines : List String := [Version.line, Version.document.pretty]

/-! ## Encryption and decryption -/

/-- The recipients of typed keys and, as far as there are any, typed identifiers. A key without
    identifier gets one of zeros. -/
def readRecipients (provider : IdProvider) :
    (keys ids : List String) → Except Failure (List Recipient)
  | [], _ => .ok []
  | key :: keys, ids => do
    let publicKey ← readPublicKey key
    let id ← match ids.head? with
      | some text => (provider.ofText text).mapError Failure.engine
      | none => .ok (List.replicate provider.byteLength 0)
    return ⟨id, publicKey⟩ :: (← readRecipients provider keys ids.tail)

/-- The recipients of a request. The multiple mode needs an identifier for each. -/
def EncryptRequest.readRecipients (config : Config) (request : EncryptRequest) :
    Except Failure (List Recipient) := do
  if request.mode = .multiple ∧ request.recipientIds.length ≠ request.recipients.length then
    throw (.idCount request.recipientIds.length request.recipients.length)
  CommandLine.readRecipients config.idProvider request.recipients request.recipientIds

/-- Takes the contents of one file to another, if all goes well. -/
def overFile (files : Files) (input output : String) (operation : Bytes → Sealing Bytes)
    (line : (read written : Nat) → String) : Draw Outcome :=
  match files.read input with
  | .error fault => return .failed files (.file .read input fault)
  | .ok contents => do
    match ← (operation contents).run with
    | .error e => return .failed files (.engine e)
    | .ok result =>
      match files.place output with
      | .error fault => return .failed files (.file .write output fault)
      | .ok target =>
        return .done (files.write target result) [line contents.length result.length]

/-- What is at a path as a source. A directory fails when it is read. -/
def Files.source (files : Files) (p : Path) : Stream.Source :=
  match files.contents? p with
  | some contents => .ofBytes contents
  | none => .ofPieces [] (.failed FileFault.isDirectory.message)

/-- Runs a stream from one file to another. The output is created, and so emptied, before the input
    is read; if the stream fails, the output is removed. What fails in front of the stream leaves
    the emptied output behind.

    An output that is the input too counts as empty until the stream has ended. That holds as long
    as the opening of a stream fits the 8 KiB that are gathered before anything is written; a longer
    one gets into the file before the first chunk is read. -/
def overStream (files : Files) (input output : String)
    (operation : Stream.Source → Sealing Stream.Report) (line : Stream.Summary → String) :
    Draw Outcome :=
  match files.find input with
  | .error fault => return .failed files (.file .openFile input fault)
  | .ok origin =>
    match files.place output with
    | .error fault => return .failed files (.file .create output fault)
    | .ok target => do
      let created := files.write target []
      match ← (operation (created.source origin)).run with
      | .error e => return .failed created (.engine e)
      | .ok report =>
        match report.outcome with
        | .ok summary => return .done (files.write target report.written) [line summary]
        | .error e => return .failed (files.remove target) (.engine e)

/-- Encrypts one file to another, as a stream if asked to and not `cancelled`. -/
def encryptFile (config : Config) (files : Files) (cancelled : Stream.Checkpoint → Bool)
    (request : EncryptRequest) : Draw Outcome :=
  match request.readRecipients config with
  | .error failure => return .failed files failure
  | .ok recipients =>
    if request.stream then
      overStream files request.input request.output
        (fun source => do
          Stream.encrypt config request.mode recipients source .unlimited
            { Stream.Options.none with cancelled, chunkSize := request.chunkSize })
        fun summary =>
          s!"✅ Encrypted {summary.plaintextBytes} bytes in {summary.chunks} chunks → "
            ++ request.output
    else
      overFile files request.input request.output
        (fun plaintext => Envelope.encrypt config request.mode recipients plaintext)
        fun read written =>
          s!"✅ Encrypted {read} bytes ({request.mode.name} mode, "
            ++ s!"{recipients.length} recipient(s)) → " ++ request.output ++ s!" ({written} bytes)"

/-- The private key and the identifier of a request. -/
def DecryptRequest.readIdentity (config : Config) (request : DecryptRequest) :
    ExceptT Failure Draw (SecretBuffer × Option Bytes) := do
  let key ← readPrivateKey request.privateKey
  match request.recipientId with
  | some text =>
    let id ← (config.idProvider.ofText text).mapError Failure.engine
    return (key, some id)
  | none => return (key, none)

/-- Decrypts one file to another with a masked private key, as a stream if asked to and not
    `cancelled`. The key is brought into the clear when it is used, which for a stream is once its
    output is created. -/
def decryptWith (config : Config) (files : Files) (cancelled : Stream.Checkpoint → Bool)
    (request : DecryptRequest) (key : SecretBuffer) (id : Option Bytes) : Draw Outcome :=
  if request.stream then
    overStream files request.input request.output
      (fun source => do
        return Stream.decrypt config (← key.expose) id source .unlimited
          { Stream.Options.none with cancelled })
      fun summary =>
        s!"✅ Decrypted {summary.plaintextBytes} bytes in {summary.chunks} chunks → "
          ++ request.output
  else
    overFile files request.input request.output
      (fun envelope => do Envelope.decrypt config (← key.expose) id envelope)
      fun _ written => s!"✅ Decrypted {written} bytes → " ++ request.output

/-- Decrypts one file to another. -/
def decryptFile (config : Config) (files : Files) (cancelled : Stream.Checkpoint → Bool)
    (request : DecryptRequest) : Draw Outcome := do
  match ← (request.readIdentity config).run with
  | .error failure => return .failed files failure
  | .ok (key, id) => decryptWith config files cancelled request key id

/-! ## Any command -/

/-- Carries out a command under a configuration. -/
def Command.run (config : Config) (files : Files) (clock : Int)
    (cancelled : Stream.Checkpoint → Bool) : Command → Draw Outcome
  | keygen json uncompressed => do
    return .done files (keyLines (← Draw.privateKey) json uncompressed)
  | encrypt request => encryptFile config files cancelled request
  | decrypt request => decryptFile config files cancelled request
  | generateIds count => do
    let ids ← drawIds config.idProvider clock count
    return .printed files (ids.mapM config.idProvider.toText)
  | checkId text =>
    return .printed files do
      return [checkedLine config.idProvider (← config.idProvider.ofText text)]
  | showConfig => return .done files [config.document.pretty]
  | showOverhead recipients =>
    let (lines, failure) := overheadLines config recipients [.simple, .single, .multiple]
    return { lines, files, failure }
  | version => return .done files versionLines

/-- Carries out an invocation. The configuration is read before anything else is done. -/
def run (files : Files) (clock : Int) (cancelled : Stream.Checkpoint → Bool)
    (invocation : Invocation) : Draw Outcome :=
  match loadConfig files invocation.config with
  | .error failure => return .failed files failure
  | .ok config => invocation.command.run config files clock cancelled

end SealedEnvelope.CommandLine
