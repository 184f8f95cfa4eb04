import SealedEnvelope.Cipher.Aes256

set_option autoImplicit false

/-! # Galois/Counter Mode with 16-octet initialisation vectors

The mode of SP 800-38D over AES-256. The plaintext is combined with a keystream of encrypted counter
blocks, and the tag is a polynomial hash of associated data and ciphertext, masked by the block of
the initial counter. A 16-octet initialisation vector is not used as a counter directly: it goes
through the same hash.

A field element of 128 bits is a number whose most significant bit is the coefficient of `x⁰`. -/

namespace SealedEnvelope.Gcm

/-! ## The hash -/

/-- The low terms `1 + x + x² + x⁷` of the field's modulus. -/
def modulus : Nat := 0xe1 <<< 120

/-- Adds to `sum` the multiples of `v` that the low `count` bits of `x` select, most significant
    first. -/
def mulBits (x : Nat) : (count sum v : Nat) → Nat
  | 0, sum, _ => sum
  | count + 1, sum, v =>
    mulBits x count (if x.testBit count then sum ^^^ v else sum)
      (if v.testBit 0 then (v >>> 1) ^^^ modulus else v >>> 1)

/-- The product of two field elements. -/
def mul (x y : Nat) : Nat := mulBits x 128 0 y

/-- Data as field elements, the last one padded with zeros. -/
def elements (data : Bytes) : List Nat :=
  (blocks 16 data).map fun b => ofBigEndian b <<< (8 * (16 - b.length))

/-- The hash of a sequence of field elements under the key `h`. -/
def ghash (h : Nat) (xs : List Nat) : Nat := xs.foldl (fun y x => mul (y ^^^ x) h) 0

/-- The hash of associated data and ciphertext, with their lengths in bits as the last element. -/
def authenticate (h : Nat) (aad ciphertext : Bytes) : Nat :=
  ghash h (elements aad ++ elements ciphertext
    ++ [(aad.length * 8) <<< 64 + ciphertext.length * 8])

/-! ## The keystream -/

/-- The counter block `i` places after `start`: only the low 32 bits count. -/
def counterBlock (start i : Nat) : Nat :=
  start / UInt32.size * UInt32.size + (start % UInt32.size + i) % UInt32.size

/-- The first `n` octets of keystream after the counter block `start`. -/
def keystream (keys : List UInt32) (start n : Nat) : Bytes :=
  ((List.range ((n + 15) / 16)).flatMap fun i =>
    bigEndian 16 (Aes256.encryptNat keys (counterBlock start (i + 1)))).take n

@[simp] theorem length_keystream (keys : List UInt32) (start n : Nat) :
    (keystream keys start n).length = n := by
  simp only [keystream, List.length_take, List.length_flatMap, length_bigEndian, List.map_const',
    List.length_range, List.sum_replicate_nat]
  omega

/-! ## The mode -/

/-- What a key and an initialisation vector fix before any data is seen. -/
structure Setup where
  keys : List UInt32
  /-- The key of the hash. -/
  hashKey : Nat
  /-- The initial counter block. -/
  start : Nat

/-- Expands the key and hashes the initialisation vector. -/
def setup (key : Octets 32) (iv : Octets 16) : Setup :=
  let keys := Aes256.keyWords key
  let h := Aes256.encryptNat keys 0
  ⟨keys, h, ghash h (elements iv.bytes ++ [128])⟩

/-- Combines data with the keystream; a second time restores it. -/
def Setup.mask (s : Setup) (data : Bytes) : Bytes :=
  xorBytes data (keystream s.keys s.start data.length)

@[simp] theorem Setup.length_mask (s : Setup) (data : Bytes) :
    (s.mask data).length = data.length := by
  simp [mask]

/-- The tag of associated data and ciphertext. -/
def Setup.tag (s : Setup) (aad ciphertext : Bytes) : Octets 16 :=
  Octets.ofNat 16 (authenticate s.hashKey aad ciphertext ^^^ Aes256.encryptNat s.keys s.start)

/-- Encrypts; the ciphertext is as long as the plaintext. The bounds of the mode on lengths, 2³⁶
    octets for plaintext and associated data alike, are left to whoever gives the data. -/
def encrypt (key : Octets 32) (iv : Octets 16) (aad plaintext : Bytes) : Bytes × Octets 16 :=
  let s := setup key iv
  let ciphertext := s.mask plaintext
  (ciphertext, s.tag aad ciphertext)

@[simp] theorem length_encrypt (key : Octets 32) (iv : Octets 16) (aad plaintext : Bytes) :
    (encrypt key iv aad plaintext).1.length = plaintext.length := by
  simp [encrypt]

/-- Decrypts, if the tag is right. -/
def decrypt? (key : Octets 32) (iv : Octets 16) (aad ciphertext : Bytes) (tag : Octets 16) :
    Option Bytes :=
  let s := setup key iv
  if s.tag aad ciphertext = tag then some (s.mask ciphertext) else none

end SealedEnvelope.Gcm
