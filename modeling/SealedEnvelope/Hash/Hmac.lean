import SealedEnvelope.Hash.Sha256

set_option autoImplicit false

/-! # HMAC and HKDF with SHA-256

`hmac` is the keyed hash of RFC 2104, and `Hkdf` the two-step key derivation of RFC 5869 built on
it: `extract` condenses key material to one key, `expand` stretches that key to any length. -/

namespace SealedEnvelope

/-- A key as one block: hashed if longer than a block, then padded with zeros. -/
def hmacBlock (key : Bytes) : Bytes :=
  let k := if 64 < key.length then (Sha256.hash key).bytes else key
  k ++ List.replicate (64 - k.length) 0

/-- The keyed hash of a message. -/
def hmac (key message : Bytes) : Octets 32 :=
  let k := hmacBlock key
  let inner := Sha256.hash (k.map (· ^^^ 0x36) ++ message)
  Sha256.hash (k.map (· ^^^ 0x5c) ++ inner.bytes)

namespace Hkdf

/-- Condenses key material under a salt. -/
def extract (salt material : Bytes) : Octets 32 := hmac salt material

/-- Output blocks from the `i`-th on, each keyed by the pseudo-random key `prk` over the block
    before it, the context `info` and its own number. -/
def expandBlocks (prk info : Bytes) : (count i : Nat) → (previous : Bytes) → Bytes
  | 0, _, _ => []
  | count + 1, i, previous =>
    let block := (hmac prk (previous ++ info ++ [UInt8.ofNat i])).bytes
    block ++ expandBlocks prk info count (i + 1) block

@[simp] theorem length_expandBlocks (prk info : Bytes) (count i : Nat) (previous : Bytes) :
    (expandBlocks prk info count i previous).length = 32 * count := by
  induction count generalizing i previous with
  | zero => rfl
  | succ count ih => simp only [expandBlocks, List.length_append, Octets.length_bytes, ih]; omega

/-- A key of `n` octets from a pseudo-random key, bound to the context `info`. -/
def expand (n : Nat) (prk info : Bytes) : Octets n :=
  ⟨(expandBlocks prk info ((n + 31) / 32) 1 []).take n, by simp; omega⟩

end Hkdf

end SealedEnvelope
