import SealedEnvelope.Cipher.InPlace
import SealedEnvelope.LengthPrefix

set_option autoImplicit false

/-! # Length prefixes on a buffer

A length is put behind what a buffer holds in two steps, first its tag and then its number. The
ceiling comes before both, so a buffer stays as it is where the length is refused. -/

namespace SealedEnvelope

namespace InPlace

theorem on_lift_bind {α β : Type} (x : Except Error α) (f : α → InPlace β) (buffer : Bytes) :
    ((liftM x : InPlace α) >>= f).on buffer
      = match x with
        | .ok a => (f a).on buffer
        | .error e => (.error e, buffer) := by
  cases x <;> rfl

end InPlace

namespace LengthPrefix

/-- Puts a length behind what the buffer holds. -/
def appendInPlace (length : Nat) : InPlace Unit := do
  checkCeiling length
  let width := Width.ofLength length
  modify (· ++ [width.tag])
  modify (· ++ bigEndian width.size length)

end LengthPrefix

end SealedEnvelope
