import SealedEnvelope.Error
import SealedEnvelope.LengthPrefix

set_option autoImplicit false

/-! # Where a stream's input comes from

A source hands out its octets in pieces, of whatever sizes, and then ends or fails. A read gets no
more than one piece, so `Intake.fill` reads again and again until it has the octets that are wanted,
and takes a read that gets nothing for the end. A source that fails does so only when octets are
wanted that it does not have. -/

namespace SealedEnvelope.Stream

/-- What a source does when all its octets are handed out. -/
inductive Ending where
  | finished
  | failed (reason : String)
deriving DecidableEq, Repr

/-- Octets that arrive in pieces. -/
structure Source where
  pieces : List Bytes
  ending : Ending
  /-- The octets handed out so far. -/
  taken : Nat
  /-- A read that gets nothing means the end, so there is something in every piece. -/
  nonempty : [] ∉ pieces
deriving DecidableEq, Repr

namespace Source

/-- A source that hands out some pieces. -/
def ofPieces (pieces : List Bytes) (ending : Ending) : Source :=
  ⟨pieces.filter (· ≠ []), ending, 0, by simp⟩

/-- A source that hands out all its octets at once, and then ends. -/
def ofBytes (bytes : Bytes) : Source := ofPieces [bytes] .finished

/-- The octets still to come. -/
def bytes (s : Source) : Bytes := s.pieces.flatten

/-- What one read into `room` octets of space leaves of some pieces. -/
def dropRead (room : Nat) : List Bytes → List Bytes
  | [] => []
  | piece :: rest => if room < piece.length then piece.drop room :: rest else rest

theorem nil_notMem_dropRead {pieces : List Bytes} (h : [] ∉ pieces) (room : Nat) :
    [] ∉ dropRead room pieces := by
  cases pieces with
  | nil => exact h
  | cons piece rest =>
    rw [List.mem_cons, not_or] at h
    rw [dropRead]
    split
    · next hlong =>
      rw [List.mem_cons, not_or]
      refine ⟨fun heq => ?_, h.2⟩
      have hlength := congrArg List.length heq
      rw [List.length_drop, List.length_nil] at hlength
      omega
    · exact h.2

/-- One read into `room` octets of space: what of it the next piece fills. -/
def read (s : Source) (room : Nat) : Except Error (Bytes × Source) :=
  match s.pieces.head? with
  | none =>
    match s.ending with
    | .finished => .ok ([], s)
    | .failed reason => .error (.io reason)
  | some piece =>
    .ok (piece.take room,
      { s with
        pieces := dropRead room s.pieces
        taken := s.taken + (piece.take room).length
        nonempty := nil_notMem_dropRead s.nonempty room })

end Source

/-- A computation that takes octets from a source. -/
abbrev Intake := StateT Source (Except Error)

namespace Intake

/-- The next `n` octets, or as many as there are before the source ends: reads until they are there
    or a read gets nothing. -/
def fill (n : Nat) : Intake Bytes := fun s =>
  if _ : n = 0 then .ok ([], s)
  else
    match s.read n with
    | .error e => .error e
    | .ok (got, s) =>
      if _ : got = [] then .ok ([], s)
      else
        match fill (n - got.length) s with
        | .error e => .error e
        | .ok (more, s) => .ok (got ++ more, s)
termination_by n
decreasing_by
  have hpos := List.length_pos_iff.2 ‹got ≠ []›
  omega

/-- The octets handed out so far. -/
def taken : Intake Nat := fun s => .ok (s.taken, s)

/-- The next `n` octets, which `what` has announced. -/
def exactly (n : Nat) (what : String) : Intake Bytes := do
  let got ← fill n
  if got.length < n then
    throw (.streamTruncated s!"{what} declares {n} bytes, only {got.length} available")
  return got

/-- The length in front of `what`. -/
def length (what : String) : Intake Nat := do
  match ← fill 1 with
  | [] => throw (.streamTruncated ("missing " ++ what ++ " length"))
  | tag :: _ =>
    let width ← LengthPrefix.Width.ofTag tag
    let field ← fill width.size
    if field.length < width.size then
      throw (.streamTruncated (what ++ " length cut short"))
    return (← LengthPrefix.decode (tag :: field)).1

end Intake

end SealedEnvelope.Stream
