import SealedEnvelope.Header
import SealedEnvelope.KeyWrap

set_option autoImplicit false

/-! # Envelopes

Encryption of whole messages. A fresh ephemeral key makes every envelope its own: in the simple and
single modes the secret it shares with the recipient gives the key directly; in the multiple mode a
random message key is wrapped for each recipient. The header, all but its tag, is authenticated with
the payload.

Encryption for several recipients checks how many they are and their identifiers before it draws
anything; their public keys are read one by one, as the message key is wrapped for them. Decryption
names structural faults; from the point on where secrets matter, every failure is
`decryptionFailed`. -/

namespace SealedEnvelope

namespace Envelope

/-- A header with its tag filled in, and the encrypted payload behind it. -/
def close (config : Config) (key : Octets 32) (header : Header) (plaintext : Bytes) :
    Except Error Bytes := do
  let aad ← header.aad config
  let (ciphertext, tag) := Gcm.encrypt key header.iv aad plaintext
  return (← { header with tag }.encode config) ++ ciphertext

/-- The payload behind a header. -/
def openWith (config : Config) (key : Octets 32) (header : Header) (ciphertext : Bytes) :
    Except Error Bytes := do
  let aad ← header.aad config
  match Gcm.decrypt? key header.iv aad ciphertext header.tag with
  | some plaintext => return plaintext
  | none => throw .decryptionFailed

/-! ## One recipient -/

/-- The envelope for one public key, given what is drawn for it. -/
def forOne (config : Config) (body : HeaderBody) (peer : Curve.Point) (plaintext : Bytes)
    (ephemeral : PrivateKey) (iv : Octets 16) : Except Error Bytes :=
  close config (config.sharedKey ephemeral peer)
    { ephemeral := ephemeral.publicKey.compressed, iv, tag := .zero 16, body } plaintext

/-- Encrypts for one public key. -/
def encryptForOne (config : Config) (body : HeaderBody) (publicKey plaintext : Bytes) :
    Sealing Bytes := do
  let peer ← parsePublicKey publicKey
  let ephemeral ← Draw.privateKey
  let iv ← Draw.iv
  forOne config body peer plaintext ephemeral iv

/-- Encrypts in the simple mode. -/
def encryptSimple (config : Config) (publicKey plaintext : Bytes) : Sealing Bytes :=
  encryptForOne config .simple publicKey plaintext

/-- Encrypts in the single mode. -/
def encryptSingle (config : Config) (publicKey plaintext : Bytes) : Sealing Bytes :=
  encryptForOne config (.single (UInt64.ofNat plaintext.length)) publicKey plaintext

/-- The payload of a simple or single envelope. -/
def openForOne (config : Config) (key : PrivateKey) (envelope : Bytes) : Except Error Bytes := do
  let (header, ciphertext) ← Header.split config envelope
  match header.body with
  | .simple => pure ()
  | .single dataLength =>
    if dataLength ≠ UInt64.ofNat ciphertext.length then throw .decryptionFailed
  | .multiple _ => throw (.unknownTypeTag Mode.multiple.tag)
  match parsePublicKey header.ephemeral.bytes with
  | .ok peer => openWith config (config.sharedKey key peer) header ciphertext
  | .error _ => throw .decryptionFailed

/-- Decrypts a simple or single envelope with a private key given as octets. -/
def decryptForOne (config : Config) (privateKey envelope : Bytes) : Except Error Bytes := do
  openForOne config (← PrivateKey.ofBytes privateKey) envelope

/-! ## Several recipients -/

/-- Encrypts once for every recipient. -/
def encryptMultiple (config : Config) (recipients : List Recipient) (plaintext : Bytes) :
    Sealing Bytes := do
  config.checkRecipients recipients
  let ephemeral ← Draw.privateKey
  let messageKey ← Draw.messageKey
  let entries ← KeyWrap.wrapAll config ephemeral messageKey recipients
  let iv ← Draw.iv
  close config messageKey
    { ephemeral := ephemeral.publicKey.compressed, iv, tag := .zero 16, body := .multiple entries }
    plaintext

/-- The payload of a multiple envelope, for the recipient of an identifier. -/
def openForId (config : Config) (id : Bytes) (key : PrivateKey) (envelope : Bytes) :
    Except Error Bytes := do
  let (header, ciphertext) ← Header.split config envelope
  match header.body with
  | .multiple _ =>
    match header.find? id with
    | some entry =>
      let messageKey ← KeyWrap.unwrap config key header.ephemeral entry
      openWith config messageKey header ciphertext
    | none => throw .recipientNotFound
  | _ => throw (.unknownTypeTag header.mode.tag)

/-- Decrypts a multiple envelope with a private key given as octets. -/
def decryptMultiple (config : Config) (id privateKey envelope : Bytes) : Except Error Bytes := do
  openForId config id (← PrivateKey.ofBytes privateKey) envelope

/-! ## Any mode -/

/-- The only recipient of a list. -/
def soleRecipient : List Recipient → Except Error Recipient
  | [] => .error .noRecipients
  | [only] => .ok only
  | recipients => .error (.tooManyRecipients recipients.length 1)

/-- Encrypts in a mode. The simple and single modes take exactly one recipient. -/
def encrypt (config : Config) (mode : Mode) (recipients : List Recipient) (plaintext : Bytes) :
    Sealing Bytes :=
  match mode with
  | .simple => do encryptSimple config (← soleRecipient recipients).publicKey plaintext
  | .single => do encryptSingle config (← soleRecipient recipients).publicKey plaintext
  | .multiple => encryptMultiple config recipients plaintext

/-- Decrypts an envelope in the mode it announces. An envelope for several recipients needs the
    identifier. -/
def decrypt (config : Config) (privateKey : Bytes) (id : Option Bytes) (envelope : Bytes) :
    Except Error Bytes :=
  match envelope with
  | [] => .error (.malformedHeader "empty envelope")
  | tag :: _ => do
    let key ← PrivateKey.ofBytes privateKey
    match ← Mode.ofTag tag with
    | .simple | .single => openForOne config key envelope
    | .multiple =>
      match id with
      | some id => openForId config id key envelope
      | none =>
        throw (.invalidIdentifier "recipient id required for multi-recipient envelopes")

/-! ## Sizes -/

/-- The greatest length that can be reported. -/
def lengthLimit : Nat := UInt64.size - 1

/-- Octets of an envelope in front of its ciphertext. -/
def overhead (config : Config) (mode : Mode) (recipients : Nat) : Except Error Nat :=
  match mode with
  | .simple | .single => .ok (mode.overhead config)
  | .multiple => do
    config.checkCount recipients
    return mode.overhead config + recipients * RecipientTable.entrySize config

/-- Octets of the envelope for a plaintext of `length` octets. -/
def encryptedLength (config : Config) (mode : Mode) (length recipients : Nat) :
    Except Error Nat := do
  let overhead ← overhead config mode recipients
  if lengthLimit < overhead + length then
    throw (.lengthTooLong length (lengthLimit - overhead))
  return overhead + length

end Envelope

end SealedEnvelope
