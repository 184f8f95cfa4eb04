import SealedEnvelope.Error
import SealedEnvelope.Octets

set_option autoImplicit false

/-! # Reading fields off an octet string

A `Reader` consumes an octet string from the front. Every read names its field, so that a string
that ends too early is reported with the field that is missing. -/

namespace SealedEnvelope

/-- A computation that consumes octets from the front of the input. -/
abbrev Reader := StateT Bytes (Except Error)

namespace Reader

/-- The input ends before a field does. -/
def truncated (field : String) (needed remaining : Nat) : Error :=
  .malformedHeader s!"truncated {field}: need {needed} bytes, {remaining} remain"

/-- The next `n` octets. -/
def octets (n : Nat) (field : String) : Reader (Octets n) := fun input =>
  match Octets.split? n input with
  | some split => .ok split
  | none => .error (truncated field n input.length)

/-- The next octet. -/
def octet (field : String) : Reader UInt8 := fun
  | b :: input => .ok (b, input)
  | [] => .error (truncated field 1 0)

/-- The next `width` octets as a big-endian number. -/
def nat (width : Nat) (field : String) : Reader Nat := Octets.toNat <$> octets width field

/-- The number of octets left. -/
def remaining : Reader Nat := fun input => .ok (input.length, input)

/-- Reads `n` times in a row. -/
def times {α : Type} (read : Reader α) : (n : Nat) → Reader (List α)
  | 0 => pure []
  | n + 1 => do
    let first ← read
    let others ← times read n
    return first :: others

/-- Runs a reader on an octet string; gives the value and what is left. -/
def run {α : Type} (read : Reader α) (input : Bytes) : Except Error (α × Bytes) := read input

end Reader

end SealedEnvelope
