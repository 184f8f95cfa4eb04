import SealedEnvelope.CommandLine.Failure
import SealedEnvelope.Key
import SealedEnvelope.SecretBuffer

set_option autoImplicit false

/-! # Keys as they are typed

A key is typed in hexadecimal digits, with or without `0x` in front and white space around. A
private key is kept in a `SecretBuffer` once it is read. -/

namespace SealedEnvelope.CommandLine

/-- A text without `0x` in front. -/
def dropHexMark (text : String) : String :=
  match text.toList with
  | '0' :: 'x' :: digits => String.ofList digits
  | _ => text

/-- The octets that a typed key spells. -/
def readKey (role : KeyRole) (text : String) : Except Failure Bytes :=
  (Text.Hex.decode (Text.utf8 (dropHexMark (Text.trim text)))).mapError (.keyText role)

/-- The octets of a typed private key. Whether they denote a scalar is not looked at. -/
def privateKeyOctets (text : String) : Except Failure Bytes := do
  let bytes ← readKey .privateKey text
  if bytes.length ≠ privateKeySize then throw (.privateKeySize bytes.length)
  return bytes

/-- A typed private key, which is kept masked from then on. -/
def readPrivateKey (text : String) : ExceptT Failure Draw SecretBuffer := do
  SecretBuffer.ofBytes (← privateKeyOctets text)

/-- The octets of a typed public key in any of its forms. -/
def readPublicKey (text : String) : Except Failure Bytes := do
  let bytes ← readKey .publicKey text
  let _ ← (normalizePublicKey bytes).mapError .engine
  return bytes

end SealedEnvelope.CommandLine
