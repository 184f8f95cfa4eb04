import SealedEnvelope.Key

set_option autoImplicit false

/-! # Drawing random octets

Fresh keys, initialisation vectors and identifiers are drawn from a tape of random octets, which an
operation consumes from the front. A `Draw` therefore is a function of the tape: the same tape gives
the same envelope. A tape may run out, and then the draw has no result; a longer tape that starts
the same way gives the same result where there is one. -/

namespace SealedEnvelope

/-- The random octets still to be drawn. -/
abbrev Tape := Bytes

/-- A computation that draws from the tape, with no result if the tape runs out. -/
abbrev Draw := StateT Tape Option

namespace Draw

/-- The next `n` octets of the tape. -/
def octets (n : Nat) : Draw (Octets n) := Octets.split? n

/-- The next `n` octets of the tape as an octet string. -/
def bytes (n : Nat) : Draw Bytes := Octets.bytes <$> octets n

/-- Draws 32 octets again and again until they denote a private key, at most `attempts` times. -/
def privateKeyWithin : (attempts : Nat) → Draw PrivateKey
  | 0 => fun _ => none
  | attempts + 1 => do
    let candidate ← octets 32
    match PrivateKey.ofNat? candidate.toNat with
    | some key => pure key
    | none => privateKeyWithin attempts

/-- A fresh private key: the first 32 octets in a row that denote one. -/
def privateKey : Draw PrivateKey := fun tape => privateKeyWithin (tape.length / 32 + 1) tape

/-- A fresh initialisation vector. -/
def iv : Draw (Octets 16) := octets 16

/-- A fresh key for one message. -/
def messageKey : Draw (Octets 32) := octets 32

/-- Runs a draw for every element of a list, in order. -/
def forEach {α β : Type} (l : List α) (f : α → Draw β) : Draw (List β) :=
  match l with
  | [] => pure []
  | a :: l => do
    let b ← f a
    let bs ← forEach l f
    return b :: bs

end Draw

/-- An operation that draws from the tape and may fail. -/
abbrev Sealing := ExceptT Error Draw

end SealedEnvelope
