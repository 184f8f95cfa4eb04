import SealedEnvelope.Cipher.Gcm
import SealedEnvelope.LengthPrefix
import SealedEnvelope.Stream.Header

set_option autoImplicit false

/-! # Chunks

A stream's payload is cut into chunks that are encrypted one by one. Each has an initialisation
vector of its own, the base vector with its last eight octets combined with the chunk's number, and
authenticates the header's hash, its number and its flags. So chunks can be neither moved within a
stream nor carried over to another, and the last one is marked as such.

```text
chunk : [number (4) | flags (1) | length prefix | ciphertext | tag (16)]
```
-/

namespace SealedEnvelope.Stream

/-- The flag of the last chunk. -/
def finalFlag : UInt8 := 0x01

/-- The flags of a chunk. -/
def flagsOf (final : Bool) : UInt8 := if final then finalFlag else 0

/-- The number of the last chunk that a stream can have. -/
def lastIndex : Nat := UInt32.size - 1

/-- The initialisation vector of a chunk. -/
def chunkIv (baseIv : Octets 16) (index : Nat) : Octets 16 :=
  ⟨baseIv.bytes.take 8 ++ xorBytes (baseIv.bytes.drop 8) (bigEndian 8 index), by simp⟩

/-- What a chunk authenticates besides its content. -/
def chunkAad (headerHash : Octets 32) (index : Nat) (flags : UInt8) : Bytes :=
  headerHash.bytes ++ bigEndian 4 index ++ [flags]

/-- What all chunks of a stream share. -/
structure Context where
  key : Octets 32
  baseIv : Octets 16
  headerHash : Octets 32
deriving DecidableEq, Repr

/-- An encrypted chunk. -/
structure Chunk where
  index : Nat
  flags : UInt8
  ciphertext : Bytes
  tag : Octets 16
deriving DecidableEq, Repr

namespace Chunk

/-- Whether this is the last chunk. -/
def isFinal (c : Chunk) : Bool := c.flags &&& finalFlag ≠ 0

/-- The ciphertext and its tag. -/
def sealed (c : Chunk) : Bytes := c.ciphertext ++ c.tag.bytes

/-- The octets of a chunk. -/
def octets (c : Chunk) : Bytes :=
  bigEndian 4 c.index ++ c.flags :: (LengthPrefix.octets c.sealed.length ++ c.sealed)

end Chunk

namespace Context

/-- Encrypts a chunk. -/
def close (ctx : Context) (index : Nat) (final : Bool) (plaintext : Bytes) : Chunk :=
  let flags := flagsOf final
  let result :=
    Gcm.encrypt ctx.key (chunkIv ctx.baseIv index) (chunkAad ctx.headerHash index flags) plaintext
  { index, flags, ciphertext := result.1, tag := result.2 }

/-- The content of a chunk, if its tag is right. -/
def open? (ctx : Context) (c : Chunk) : Option Bytes :=
  Gcm.decrypt? ctx.key (chunkIv ctx.baseIv c.index) (chunkAad ctx.headerHash c.index c.flags)
    c.ciphertext c.tag

end Context

end SealedEnvelope.Stream
