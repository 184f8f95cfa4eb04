import SealedEnvelope.Cipher.Aead
import SealedEnvelope.KeyDerivation
import SealedEnvelope.Random
import SealedEnvelope.RecipientTable

set_option autoImplicit false

/-! # Wrapping the message key

A message for several recipients is encrypted once, under a random message key. For each recipient
that key is encrypted under the secret shared with the message's ephemeral key, with the recipient's
identifier as associated data. Whatever is wrong with a wrapped key, unwrapping it reports the one
`decryptionFailed`. -/

namespace SealedEnvelope

/-- Someone an envelope is meant for, as named by the caller. -/
structure Recipient where
  id : Bytes
  /-- The public key in any of its forms. -/
  publicKey : Bytes
deriving DecidableEq, Repr

/-- The symmetric key that a private and a public key share. -/
def PrivateKey.sharedKey (key : PrivateKey) (peer : Curve.Point) : Octets 32 :=
  symmetricKey (key.agree peer).bytes

namespace Config

/-- The symmetric key that a private and a public key share, in the size that the configuration
    declares. -/
def sharedKey (config : Config) (key : PrivateKey) (peer : Curve.Point) : Octets 32 :=
  config.symmetricKey (key.agree peer).bytes

@[simp] theorem sharedKey_eq (config : Config) (key : PrivateKey) (peer : Curve.Point) :
    config.sharedKey key peer = key.sharedKey peer :=
  config.symmetricKey_eq _

/-- Refuses the first identifier of the wrong width. -/
def checkIdSizes (config : Config) : List Bytes → Except Error Unit
  | [] => .ok ()
  | id :: rest => do
    config.checkIdSize id
    config.checkIdSizes rest

/-- Refuses a list of recipients with a wrong count, a wrong width, or an identifier twice. -/
def checkRecipients (config : Config) (recipients : List Recipient) : Except Error Unit := do
  config.checkCount recipients.length
  config.checkIdSizes (recipients.map (·.id))
  checkUnique (recipients.map (·.id))

end Config

namespace KeyWrap

/-- The entry of an identifier: the message key wrapped for the owner of a public key. -/
def wrap (config : Config) (ephemeral : PrivateKey) (messageKey : Octets 32) (id : Bytes)
    (peer : Curve.Point) (iv : Octets 16) : RecipientEntry :=
  let sealed := Gcm.encrypt (config.sharedKey ephemeral peer) iv id messageKey.bytes
  { id
    wrappedKey :=
      { ephemeral := ephemeral.publicKey.uncompressed
        iv
        tag := sealed.2
        encryptedKey := ⟨sealed.1, by simp [sealed]⟩ } }

/-- Wraps the message key for a recipient, whose public key is read before anything is drawn. -/
def wrapFor (config : Config) (ephemeral : PrivateKey) (messageKey : Octets 32)
    (recipient : Recipient) : Sealing RecipientEntry := do
  let peer ← parsePublicKey recipient.publicKey
  let iv ← Draw.iv
  return wrap config ephemeral messageKey recipient.id peer iv

/-- Wraps the message key for each recipient in turn. -/
def wrapAll (config : Config) (ephemeral : PrivateKey) (messageKey : Octets 32) :
    List Recipient → Sealing (List RecipientEntry)
  | [] => return []
  | recipient :: rest => do
    let entry ← wrapFor config ephemeral messageKey recipient
    return entry :: (← wrapAll config ephemeral messageKey rest)

/-- The message key from the entry of a private key's owner. The ephemeral key in the entry has to
    be the header's. -/
def unwrap (config : Config) (key : PrivateKey) (headerEphemeral : Octets 33)
    (entry : RecipientEntry) : Except Error (Octets 32) :=
  let wrapped := entry.wrappedKey
  match normalizePublicKey wrapped.ephemeral.bytes, parsePublicKey headerEphemeral.bytes with
  | .ok embedded, .ok peer =>
    if embedded ≠ headerEphemeral then .error .decryptionFailed
    else
      match (Gcm.decrypt? (config.sharedKey key peer) wrapped.iv entry.id wrapped.encryptedKey.bytes
          wrapped.tag).bind (Octets.ofBytes? 32) with
      | some messageKey => .ok messageKey
      | none => .error .decryptionFailed
  | _, _ => .error .decryptionFailed

end KeyWrap

end SealedEnvelope
