import SealedEnvelope.Random

set_option autoImplicit false

/-! # Object identifiers

Twelve octets: the seconds of the clock, five octets drawn once for each process, and a counter of
24 bits that starts anywhere and moves on by one with every identifier. The counter is kept in 32
bits and cut when written, so it wraps the same way at both widths. -/

namespace SealedEnvelope.ObjectId

/-- Octets in an object identifier. -/
def size : Nat := 12

/-- What a process keeps to make object identifiers. -/
structure Generator where
  process : Octets 5
  counter : UInt32
deriving DecidableEq, Repr

namespace Generator

/-- A generator with its five octets and its starting counter drawn. -/
def draw : Draw Generator := do
  let process ← Draw.octets 5
  let start ← Draw.octets 4
  return ⟨process, UInt32.ofNat (ofBigEndian start.bytes.reverse) &&& 0xffffff⟩

/-- The clock's seconds as they are written: cut to what four octets hold. -/
def seconds (clock : Int) : Nat := min clock.toNat (UInt32.size - 1)

/-- The identifier made at a clock reading, and the generator behind it. -/
def next (g : Generator) (clock : Int) : Octets 12 × Generator :=
  let counter := g.counter &&& 0xffffff
  let bytes := bigEndian 4 (seconds clock) ++ g.process.bytes ++ bigEndian 3 counter.toNat
  (⟨bytes, by simp [bytes]⟩, { g with counter := g.counter + 1 })

/-- The identifiers made at a sequence of clock readings. -/
def run (g : Generator) : (clocks : List Int) → List (Octets 12)
  | [] => []
  | clock :: clocks => (g.next clock).1 :: run (g.next clock).2 clocks

end Generator

/-- The seconds that an object identifier carries. -/
def timestamp (id : Octets 12) : Nat := ofBigEndian (id.bytes.take 4)

/-- The octets drawn for the process. -/
def process (id : Octets 12) : Bytes := (id.bytes.drop 4).take 5

/-- The counter of an object identifier. -/
def counter (id : Octets 12) : Nat := ofBigEndian (id.bytes.drop 9)

end SealedEnvelope.ObjectId
