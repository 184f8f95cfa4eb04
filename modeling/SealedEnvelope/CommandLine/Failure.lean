import SealedEnvelope.CommandLine.Files
import SealedEnvelope.Config
import SealedEnvelope.Json.Parser
import SealedEnvelope.Text.Hex

set_option autoImplicit false

/-! # Failures of commands

A command fails as the engine does, or because of what surrounds the engine: a key that was not
typed as hexadecimal, a file that cannot be read or written, a configuration file that is no
document. -/

namespace SealedEnvelope.CommandLine

/-- Which key a text is to spell. -/
inductive KeyRole where
  | privateKey
  | publicKey
deriving DecidableEq, Repr

/-- The role at the start of a sentence. -/
def KeyRole.title : KeyRole → String
  | privateKey => "Private key"
  | publicKey => "Public key"

/-- What was to be done with a file. -/
inductive FileAction where
  | read | readConfig | openFile | create | write
deriving DecidableEq, Repr

/-- The action in words. -/
def FileAction.words : FileAction → String
  | read => "read"
  | readConfig => "read config file"
  | openFile => "open"
  | create => "create"
  | write => "write"

/-- Why a command fails. -/
inductive Failure where
  | engine (e : Error)
  | keyText (role : KeyRole) (fault : Text.Hex.Fault)
  /-- A private key has the wrong number of octets. -/
  | privateKeySize (size : Nat)
  /-- In the multiple mode there have to be as many identifiers as keys. -/
  | idCount (ids keys : Nat)
  | file (action : FileAction) (path : String) (fault : FileFault)
  /-- The configuration file, with these octets, is no document. -/
  | configText (path : String) (text : Bytes) (fault : Json.Fault)
  /-- The battery has ended over the sizes in the configuration file, and the command with it. -/
  | overflow (o : Overflow)
deriving DecidableEq, Repr

/-- The failure in words. -/
def Failure.message : Failure → String
  | engine e => e.message
  | keyText role fault => role.title ++ " is not valid hex: " ++ fault.message
  | privateKeySize size => s!"Invalid private key size: expected 32 bytes, got {size}"
  | idCount ids keys =>
    s!"Multiple mode needs one --recipient-id per --recipient ({ids} ids for {keys} keys)"
  | file action path fault => "Failed to " ++ action.words ++ " " ++ path ++ ": " ++ fault.message
  | configText path text fault =>
    "Config file " ++ path ++ " is not valid JSON: " ++ fault.message text
  | overflow o => o.message

/-- A command fails as the build of its configuration does. -/
def Failure.ofConfig : Config.Failure Error → Failure
  | .returned e => .engine e
  | .overflow o => .overflow o

end SealedEnvelope.CommandLine
