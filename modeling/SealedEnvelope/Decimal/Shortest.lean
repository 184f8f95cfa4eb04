set_option autoImplicit false

/-! # Shortest decimals of doubles

A double is a dyadic number, a natural mantissa times a power of two. The decimal numbers that read
back as it fill the interval around it up to half way to its neighbours, ends included if the
mantissa is even. `shortest` gives the coarsest grid of powers of ten that meets this interval, and
on it the point nearest to the double: that is the decimal with the fewest digits. `text` writes it
with a point below 10^16 and down to 10^-5, and with a signed exponent beyond. -/

namespace SealedEnvelope.Decimal

/-- The dyadic number `mantissa · 2 ^ exponent`. -/
structure Dyadic where
  mantissa : Nat
  exponent : Int
deriving DecidableEq, Repr

/-- The bit of the mantissa that a double does not store, above the 52 that it does. -/
def hiddenBit : Nat := 1 <<< 52

/-- The magnitude of a finite double with these bits. -/
def Dyadic.ofBits (bits : UInt64) : Dyadic :=
  let fraction := bits.toNat % hiddenBit
  let scale := bits.toNat / hiddenBit % 2048
  if scale = 0 then ⟨fraction, -1074⟩ else ⟨hiddenBit + fraction, Int.ofNat scale - 1075⟩

/-- The decimal number `digits · 10 ^ exponent`. -/
structure Numeral where
  digits : Nat
  exponent : Int
deriving DecidableEq, Repr

/-- The points of the grid of multiples of `10 ^ exponent` next to the fraction `value / unit`,
    compared with an interval that reaches `below` and `above` it. All three are multiples of
    `1 / unit`; an end belongs to the interval if `closed`. Of two points inside, the nearer is
    taken, and of two equally near the one with an even number of grid steps. -/
def pointOnGrid? (closed : Bool) (value below above unit : Nat) (exponent : Int) : Option Nat :=
  let raise := Nat.pow 10 (-exponent).toNat
  let step := unit * Nat.pow 10 exponent.toNat
  let value := value * raise
  let below := below * raise
  let above := above * raise
  let low := value / step
  let lowGap := value - low * step
  let highGap := (low + 1) * step - value
  let lowIn := lowGap < below || (closed && lowGap = below)
  let highIn := highGap < above || (closed && highGap = above)
  if lowIn && highIn then
    if lowGap < highGap || (lowGap = highGap && low % 2 = 0) then some low else some (low + 1)
  else if lowIn then some low
  else if highIn then some (low + 1)
  else none

/-- The first grid point found on the grids `10 ^ exponent`, `10 ^ (exponent - 1)` and so on. -/
def firstOnGrids (closed : Bool) (value below above unit : Nat) :
    (grids : Nat) → (exponent : Int) → Numeral
  | 0, exponent => ⟨0, exponent⟩
  | grids + 1, exponent =>
    match pointOnGrid? closed value below above unit exponent with
    | some digits => ⟨digits, exponent⟩
    | none => firstOnGrids closed value below above unit grids (exponent - 1)

/-- The decimal of fewest digits that reads back as a positive double. -/
def shortest (d : Dyadic) : Numeral :=
  -- Quarters of the last place: a mantissa at a power of two has a nearer neighbour below.
  let below := if d.mantissa = hiddenBit ∧ -1074 < d.exponent then 1 else 2
  let quarter := d.exponent - 2
  let scale := 1 <<< quarter.toNat
  firstOnGrids (d.mantissa % 2 = 0) (4 * d.mantissa * scale) (below * scale) (2 * scale)
    (1 <<< (-quarter).toNat) 640 309

/-- A natural number in decimal digits. -/
def digitsOf (n : Nat) : List Char := Nat.toDigits 10 n

/-- A decimal number written with a point where its magnitude lies between 10^-5 and 10^16, and with
    an exponent, which always has its sign, elsewhere. -/
def Numeral.text (d : Numeral) : String :=
  let digits := digitsOf d.digits
  let count := Int.ofNat digits.length
  let point := count + d.exponent
  let shown :=
    if 0 ≤ d.exponent ∧ point ≤ 16 then
      digits ++ List.replicate d.exponent.toNat '0' ++ ['.', '0']
    else if 0 < point ∧ point ≤ 16 then
      digits.take point.toNat ++ '.' :: digits.drop point.toNat
    else if -5 < point ∧ point ≤ 0 then
      '0' :: '.' :: List.replicate (-point).toNat '0' ++ digits
    else
      let power := point - 1
      let exponent := (if power < 0 then '-' else '+') :: digitsOf power.natAbs
      match digits with
      | [only] => only :: 'e' :: exponent
      | first :: others => first :: '.' :: others ++ 'e' :: exponent
      | [] => exponent
  String.ofList shown

/-- A finite double as text. -/
def text (bits : UInt64) : String :=
  let sign := if bits.toNat.testBit 63 then "-" else ""
  let d := Dyadic.ofBits bits
  sign ++ (if d.mantissa = 0 then "0.0" else (shortest d).text)

end SealedEnvelope.Decimal
