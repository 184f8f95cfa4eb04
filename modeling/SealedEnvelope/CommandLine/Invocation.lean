import SealedEnvelope.Header

set_option autoImplicit false

/-! # Invocations

What the arguments of the program ask for, and why they may ask for nothing. An `Invocation` is a
command with everything it needs, read but not yet carried out: keys and identifiers are still the
texts that were typed, files are still named. -/

namespace SealedEnvelope.CommandLine

/-- What to encrypt, and for whom. -/
structure EncryptRequest where
  recipients : List String
  recipientIds : List String
  mode : Mode
  stream : Bool
  chunkSize : Option Nat
  input : String
  output : String
deriving DecidableEq, Repr

/-- What to decrypt, and as whom. -/
structure DecryptRequest where
  privateKey : String
  recipientId : Option String
  stream : Bool
  input : String
  output : String
deriving DecidableEq, Repr

/-- What the program can do. -/
inductive Command where
  /-- Make a key pair. -/
  | keygen (json uncompressed : Bool)
  | encrypt (request : EncryptRequest)
  | decrypt (request : DecryptRequest)
  /-- Make identifiers. -/
  | generateIds (count : Nat)
  /-- Read an identifier. -/
  | checkId (text : String)
  | showConfig
  /-- Show what each mode adds to a plaintext. -/
  | showOverhead (recipients : Nat)
  | version
deriving DecidableEq, Repr

/-- A command, and the file that configures it. -/
structure Invocation where
  config : Option String
  command : Command
deriving DecidableEq, Repr

/-- What the environment says in place of arguments. -/
structure Environment where
  config : Option String
  privateKey : Option String
deriving DecidableEq, Repr

/-- Nothing said. -/
def Environment.empty : Environment := ⟨none, none⟩

/-- Why arguments are no invocation. -/
inductive UsageError where
  | helpRequested
  | versionRequested
  /-- A command is needed, and there are no arguments at all. -/
  | nothingRequested
  /-- A command is needed, and there are only options. -/
  | commandMissing
  | commandUnknown
  | argumentUnknown
  | argumentMissing
  /-- An option that may be given once is given again. -/
  | argumentRepeated
  | valueMissing
  | valueInvalid
  /-- A value is attached to an option that takes none. -/
  | valueUnwanted
deriving DecidableEq, Repr

end SealedEnvelope.CommandLine
