import SealedEnvelope.Hash.Hmac
import SealedEnvelope.Key

set_option autoImplicit false

/-! # Signatures

ECDSA on secp256k1 over the SHA-256 hash of the message. A signature is `r` and `s`, 32 octets each;
of the two values of `s` that would do, the lower one is written and the only one accepted. The
nonce is derived from key and message as in RFC 6979, so signing needs no randomness. -/

namespace SealedEnvelope.Signature

open Curve (Scalar Point order generator inverse)

/-- Octets in a signature. -/
def size : Nat := 64

/-- The message's hash as a scalar. -/
def digest (message : Bytes) : Scalar := Fin.ofNat order (ofBigEndian (Sha256.hash message).bytes)

/-- The lower of `s` and its negative is at most half the order. -/
def IsLow (s : Scalar) : Prop := s.val ≤ order / 2

instance (s : Scalar) : Decidable (IsLow s) := inferInstanceAs (Decidable (_ ≤ _))

/-- The scalar that 32 octets denote, if it is neither zero nor too large. -/
def nonzeroScalar? (bytes : Bytes) : Option Scalar :=
  let n := ofBigEndian bytes
  if h : n < order then if n = 0 then none else some ⟨n, h⟩ else none

/-! ## The nonce -/

/-- Draws candidates from the generator with key `k` and value `v` until one is a non-zero scalar,
    at most `attempts` times. -/
def nonceFrom : (attempts : Nat) → (k v : Bytes) → Option Scalar
  | 0, _, _ => none
  | attempts + 1, k, v =>
    let v := (hmac k v).bytes
    match nonzeroScalar? v with
    | some nonce => some nonce
    | none =>
      let k := (hmac k (v ++ [0])).bytes
      nonceFrom attempts k (hmac k v).bytes

/-- The nonce for a key and a hashed message. A candidate fails with probability `2⁻¹²⁸`, so the
    bound on the attempts is never met. -/
def nonce (key : PrivateKey) (z : Scalar) : Option Scalar :=
  let seed := key.octets.bytes ++ bigEndian 32 z.val
  let v := List.replicate 32 1
  let k := (hmac (List.replicate 32 0) (v ++ 0 :: seed)).bytes
  let v := (hmac k v).bytes
  let k := (hmac k (v ++ 1 :: seed)).bytes
  nonceFrom 64 k (hmac k v).bytes

/-! ## Signing -/

/-- The private key that up to 32 octets denote: at least 24 are needed, and a shorter string is
    padded with zeros on the left. -/
def signingKey (bytes : Bytes) : Except Error PrivateKey :=
  let inBounds := 24 ≤ bytes.length ∧ bytes.length ≤ 32
  match if inBounds then PrivateKey.ofNat? (ofBigEndian bytes) else none with
  | some key => .ok key
  | none => .error (.invalidKey "private" "not a valid secp256k1 scalar")

/-- `r` and `s`, the latter replaced by its negative if it is not low. -/
def encode (r s : Scalar) : Octets 64 :=
  let s := if IsLow s then s else -s
  ⟨bigEndian 32 r.val ++ bigEndian 32 s.val, by simp⟩

/-- The signature of a message by a key. -/
def signWith (key : PrivateKey) (message : Bytes) : Option (Octets 64) := do
  let z := digest message
  let k ← nonce key z
  let r : Scalar := Fin.ofNat order (generator.mul k.val).x.val
  let s := inverse k * (z + r * Fin.ofNat order key.scalar)
  if r = 0 ∨ s = 0 then none else some (encode r s)

/-- Signs a message with a private key given as octets. -/
def sign (privateKey message : Bytes) : Except Error (Octets 64) := do
  let key ← signingKey privateKey
  match signWith key message with
  | some signature => .ok signature
  | none => .error (.encryptionFailed "no usable signature nonce")

/-! ## Verifying -/

/-- `r` and a low `s`, from 64 octets. -/
def decode? (signature : Bytes) : Option (Scalar × Scalar) := do
  if signature.length ≠ size then none
  else
    let r ← nonzeroScalar? (signature.take 32)
    let s ← nonzeroScalar? (signature.drop 32)
    if IsLow s then some (r, s) else none

/-- `(r, s)` signs the hash `z` under the public key `P`. -/
def holds (P : Point) (z r s : Scalar) : Bool :=
  let w := inverse s
  let R := (generator.mul (z * w).val).add (P.mul (r * w).val)
  (R.x ≠ 0 ∨ R.y ≠ 0) ∧ Fin.ofNat order R.x.val = r

/-- Succeeds if the signature is the message's under the public key. -/
def verify (publicKey message signature : Bytes) : Except Error Unit := do
  let P ← parsePublicKey publicKey
  match decode? signature with
  | none => .error .invalidSignature
  | some (r, s) => if holds P (digest message) r s then .ok () else .error .invalidSignature

end SealedEnvelope.Signature
