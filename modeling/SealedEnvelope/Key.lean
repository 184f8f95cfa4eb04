import SealedEnvelope.Curve.Point
import SealedEnvelope.Error
import SealedEnvelope.Text.Hex

set_option autoImplicit false

/-! # Keys

A private key is a scalar between one and the group's order, a public key a point of the curve.
Public keys arrive in three forms, told apart by their length: 33 octets compressed, 65 octets with
both coordinates behind the mark `0x04`, and 64 octets with both coordinates and no mark. They are
normalised to the compressed form, which is what headers carry. Two parties agree on the first
coordinate of the product of one's scalar and the other's point. -/

namespace SealedEnvelope

open Curve (Point)

/-- Octets in a private key. -/
def privateKeySize : Nat := 32

/-- Octets in a compressed public key. -/
def compressedKeySize : Nat := 33

/-- Octets in a public key of two coordinates without mark. -/
def rawKeySize : Nat := 64

/-- Octets in a public key of two coordinates with its mark. -/
def uncompressedKeySize : Nat := 65

/-! ## Private keys -/

/-- A scalar that may serve as a private key. -/
structure PrivateKey where
  scalar : Nat
  pos : 0 < scalar
  lt_order : scalar < Curve.order
deriving DecidableEq, Repr

namespace PrivateKey

/-- The scalar as a private key, if it lies strictly between zero and the group's order. -/
def ofNat? (n : Nat) : Option PrivateKey :=
  if h : 0 < n ∧ n < Curve.order then some ⟨n, h.1, h.2⟩ else none

/-- The private key that 32 octets denote. -/
def ofBytes (bytes : Bytes) : Except Error PrivateKey :=
  if bytes.length ≠ privateKeySize then
    .error (.invalidKey "private" s!"expected {privateKeySize} bytes, got {bytes.length}")
  else
    match ofNat? (ofBigEndian bytes) with
    | some key => .ok key
    | none => .error (.invalidKey "private" "scalar is zero or out of range")

/-- The scalar as 32 octets. -/
def octets (key : PrivateKey) : Octets 32 := Octets.ofNat 32 key.scalar

/-- The public key that belongs to a private key. -/
def publicKey (key : PrivateKey) : Point := Curve.generator.mul key.scalar

/-- The secret shared with the owner of a public key. -/
def agree (key : PrivateKey) (peer : Point) : Octets 32 :=
  Octets.ofNat 32 (peer.mul key.scalar).x.val

/-- How a key pair shows itself in logs: by its public half only. -/
def describe (key : PrivateKey) : String :=
  "EciesKeyPair \x7b public: \"" ++ Text.Hex.encode key.publicKey.compressed.bytes ++ "\", .. \x7d"

end PrivateKey

/-! ## Public keys -/

/-- The point that a public key in any of the three forms denotes. -/
def parsePublicKey (bytes : Bytes) : Except Error Point :=
  let checked (point : Option Point) : Except Error Point :=
    match point with
    | some P => .ok P
    | none => .error (.invalidKey "public" "not a point on secp256k1")
  let n := bytes.length
  match bytes with
  | mark :: rest =>
    if n = compressedKeySize then checked (Point.ofCompressed? mark rest)
    else if n = uncompressedKeySize then
      if mark ≠ Curve.uncompressedMark then
        .error (.invalidKey "public"
          ("uncompressed key must start with 0x04, got " ++ Error.octetText mark))
      else checked (Point.ofCoordinates? rest)
    else if n = rawKeySize then checked (Point.ofCoordinates? bytes)
    else .error (.invalidKey "public" s!"expected 33, 64 or 65 bytes, got {n}")
  | [] => .error (.invalidKey "public" s!"expected 33, 64 or 65 bytes, got {n}")

/-- The compressed form of a public key. -/
def normalizePublicKey (bytes : Bytes) : Except Error (Octets 33) := do
  return (← parsePublicKey bytes).compressed

/-- The uncompressed form of a public key. -/
def decompressPublicKey (bytes : Bytes) : Except Error (Octets 65) := do
  return (← parsePublicKey bytes).uncompressed

/-- The secret that a private and a public key share, both given as octets. -/
def deriveSharedSecret (privateKey publicKey : Bytes) : Except Error (Octets 32) := do
  let key ← PrivateKey.ofBytes privateKey
  let peer ← parsePublicKey publicKey
  return key.agree peer

end SealedEnvelope
