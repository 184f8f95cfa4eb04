import SealedEnvelope.Octets

set_option autoImplicit false

/-! # AES with 256-bit keys

The block cipher of FIPS 197, in the encryption direction only, which is all that counter mode
needs. A block is the standard's square of sixteen octets, held as its four columns; a column is a
big-endian word, so row `r` is the `r`-th octet from the top of each word. -/

namespace SealedEnvelope.Aes256

/-- The substitution box: inversion in the field of 256 elements, then an affine map. -/
def substitutionTable : Array UInt8 := #[
  0x63, 0x7c, 0x77, 0x7b, 0xf2, 0x6b, 0x6f, 0xc5, 0x30, 0x01, 0x67, 0x2b, 0xfe, 0xd7, 0xab, 0x76,
  0xca, 0x82, 0xc9, 0x7d, 0xfa, 0x59, 0x47, 0xf0, 0xad, 0xd4, 0xa2, 0xaf, 0x9c, 0xa4, 0x72, 0xc0,
  0xb7, 0xfd, 0x93, 0x26, 0x36, 0x3f, 0xf7, 0xcc, 0x34, 0xa5, 0xe5, 0xf1, 0x71, 0xd8, 0x31, 0x15,
  0x04, 0xc7, 0x23, 0xc3, 0x18, 0x96, 0x05, 0x9a, 0x07, 0x12, 0x80, 0xe2, 0xeb, 0x27, 0xb2, 0x75,
  0x09, 0x83, 0x2c, 0x1a, 0x1b, 0x6e, 0x5a, 0xa0, 0x52, 0x3b, 0xd6, 0xb3, 0x29, 0xe3, 0x2f, 0x84,
  0x53, 0xd1, 0x00, 0xed, 0x20, 0xfc, 0xb1, 0x5b, 0x6a, 0xcb, 0xbe, 0x39, 0x4a, 0x4c, 0x58, 0xcf,
  0xd0, 0xef, 0xaa, 0xfb, 0x43, 0x4d, 0x33, 0x85, 0x45, 0xf9, 0x02, 0x7f, 0x50, 0x3c, 0x9f, 0xa8,
  0x51, 0xa3, 0x40, 0x8f, 0x92, 0x9d, 0x38, 0xf5, 0xbc, 0xb6, 0xda, 0x21, 0x10, 0xff, 0xf3, 0xd2,
  0xcd, 0x0c, 0x13, 0xec, 0x5f, 0x97, 0x44, 0x17, 0xc4, 0xa7, 0x7e, 0x3d, 0x64, 0x5d, 0x19, 0x73,
  0x60, 0x81, 0x4f, 0xdc, 0x22, 0x2a, 0x90, 0x88, 0x46, 0xee, 0xb8, 0x14, 0xde, 0x5e, 0x0b, 0xdb,
  0xe0, 0x32, 0x3a, 0x0a, 0x49, 0x06, 0x24, 0x5c, 0xc2, 0xd3, 0xac, 0x62, 0x91, 0x95, 0xe4, 0x79,
  0xe7, 0xc8, 0x37, 0x6d, 0x8d, 0xd5, 0x4e, 0xa9, 0x6c, 0x56, 0xf4, 0xea, 0x65, 0x7a, 0xae, 0x08,
  0xba, 0x78, 0x25, 0x2e, 0x1c, 0xa6, 0xb4, 0xc6, 0xe8, 0xdd, 0x74, 0x1f, 0x4b, 0xbd, 0x8b, 0x8a,
  0x70, 0x3e, 0xb5, 0x66, 0x48, 0x03, 0xf6, 0x0e, 0x61, 0x35, 0x57, 0xb9, 0x86, 0xc1, 0x1d, 0x9e,
  0xe1, 0xf8, 0x98, 0x11, 0x69, 0xd9, 0x8e, 0x94, 0x9b, 0x1e, 0x87, 0xe9, 0xce, 0x55, 0x28, 0xdf,
  0x8c, 0xa1, 0x89, 0x0d, 0xbf, 0xe6, 0x42, 0x68, 0x41, 0x99, 0x2d, 0x0f, 0xb0, 0x54, 0xbb, 0x16]

/-- The substitute of one octet. -/
def substitute (b : UInt8) : UInt8 := substitutionTable.getD b.toNat 0

/-- Multiplication by `x` in the field, reduced by `x⁸ + x⁴ + x³ + x + 1`. -/
def timesX (b : UInt8) : UInt8 := if b < 0x80 then b <<< 1 else (b <<< 1) ^^^ 0x1b

/-! ## Words and blocks -/

/-- Four octets as a word, the first on top. -/
def word (a b c d : UInt8) : UInt32 :=
  (a.toUInt32 <<< 24) ||| (b.toUInt32 <<< 16) ||| (c.toUInt32 <<< 8) ||| d.toUInt32

/-- The substitute of row 0 of a column. -/
def row0 (w : UInt32) : UInt8 := substitute (w >>> 24).toUInt8

/-- The substitute of row 1 of a column. -/
def row1 (w : UInt32) : UInt8 := substitute (w >>> 16).toUInt8

/-- The substitute of row 2 of a column. -/
def row2 (w : UInt32) : UInt8 := substitute (w >>> 8).toUInt8

/-- The substitute of row 3 of a column. -/
def row3 (w : UInt32) : UInt8 := substitute w.toUInt8

/-- The four columns of a block. -/
structure Block where
  c0 : UInt32
  c1 : UInt32
  c2 : UInt32
  c3 : UInt32
deriving DecidableEq, Repr

/-- The block that sixteen octets denote as a big-endian number. -/
def Block.ofNat (n : Nat) : Block :=
  ⟨UInt32.ofNat (n >>> 96), UInt32.ofNat (n >>> 64), UInt32.ofNat (n >>> 32), UInt32.ofNat n⟩

/-- The number that a block's sixteen octets denote. -/
def Block.toNat (s : Block) : Nat :=
  s.c0.toNat <<< 96 + s.c1.toNat <<< 64 + s.c2.toNat <<< 32 + s.c3.toNat

/-! ## Round keys -/

/-- The words that follow `window`, the last eight words, from position `i` on; `constant` is the
    next round constant. -/
def expandWords : (count i : Nat) → (constant : UInt8) → (window : List UInt32) → List UInt32
  | 0, _, _, _ => []
  | count + 1, i, constant, window =>
    let last := window.getD 7 0
    let mixed :=
      if i % 8 = 0 then word (row1 last ^^^ constant) (row2 last) (row3 last) (row0 last)
      else if i % 8 = 4 then word (row0 last) (row1 last) (row2 last) (row3 last)
      else last
    let next := window.getD 0 0 ^^^ mixed
    next :: expandWords count (i + 1) (if i % 8 = 0 then timesX constant else constant)
      (window.drop 1 ++ [next])

/-- The sixty words of the fifteen round keys. -/
def keyWords (key : Octets 32) : List UInt32 :=
  let first := (blocks 4 key.bytes).map fun w => UInt32.ofNat (ofBigEndian w)
  first ++ expandWords 52 0 1 first

/-! ## The cipher -/

/-- Multiplies a column by the cipher's matrix. -/
def mixColumn (a b c d : UInt8) : UInt32 :=
  let all := a ^^^ b ^^^ c ^^^ d
  word (a ^^^ all ^^^ timesX (a ^^^ b)) (b ^^^ all ^^^ timesX (b ^^^ c))
    (c ^^^ all ^^^ timesX (c ^^^ d)) (d ^^^ all ^^^ timesX (d ^^^ a))

/-- Substitutes every octet, moves row `r` by `r` places and passes each column to `column`. -/
def Block.shifted (column : UInt8 → UInt8 → UInt8 → UInt8 → UInt32) (s : Block) : Block :=
  ⟨column (row0 s.c0) (row1 s.c1) (row2 s.c2) (row3 s.c3),
   column (row0 s.c1) (row1 s.c2) (row2 s.c3) (row3 s.c0),
   column (row0 s.c2) (row1 s.c3) (row2 s.c0) (row3 s.c1),
   column (row0 s.c3) (row1 s.c0) (row2 s.c1) (row3 s.c2)⟩

/-- Adds a round key. -/
def Block.addKey (s : Block) (k0 k1 k2 k3 : UInt32) : Block :=
  ⟨s.c0 ^^^ k0, s.c1 ^^^ k1, s.c2 ^^^ k2, s.c3 ^^^ k3⟩

/-- The rounds after the first key; the last one does not mix columns. -/
def rounds : (keys : List UInt32) → Block → Block
  | [k0, k1, k2, k3], s => (s.shifted word).addKey k0 k1 k2 k3
  | k0 :: k1 :: k2 :: k3 :: keys, s => rounds keys ((s.shifted mixColumn).addKey k0 k1 k2 k3)
  | _, s => s

/-- Encrypts one block under expanded key words. -/
def encryptBlock (keys : List UInt32) (s : Block) : Block :=
  match keys with
  | k0 :: k1 :: k2 :: k3 :: rest => rounds rest (s.addKey k0 k1 k2 k3)
  | _ => s

/-- Encrypts sixteen octets, given and answered as the number they denote. -/
def encryptNat (keys : List UInt32) (n : Nat) : Nat := (encryptBlock keys (Block.ofNat n)).toNat

end SealedEnvelope.Aes256
