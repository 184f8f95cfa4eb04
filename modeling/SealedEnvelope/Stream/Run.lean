import SealedEnvelope.Error
import SealedEnvelope.Octets

set_option autoImplicit false

/-! # Runs of a stream

Encrypting and decrypting a stream both come down to a `Run`: the portions that are ready to be
written, in order, and how the run ends. Delivering a run to a `Sink` writes them one after the
other and stops at the first that the sink does not take whole. A snapshot of the progress follows
every portion that is delivered. A run can also be withheld, and is then written only once it has
ended well. -/

namespace SealedEnvelope.Stream

/-- Octets to be written at once, and the plaintext octets they account for. -/
structure Portion where
  octets : Bytes
  plain : Nat
deriving DecidableEq, Repr

/-- The plaintext octets that portions account for. -/
def plainOf : List Portion → Nat
  | [] => 0
  | p :: rest => p.plain + plainOf rest

/-- The portions of a stream, and how it ends behind them. -/
structure Run where
  portions : List Portion
  outcome : Except Error Unit

namespace Run

/-- The run that ends at once. -/
def ending (outcome : Except Error Unit) : Run := ⟨[], outcome⟩

/-- The run with one portion more in front. -/
def cons (portion : Portion) (run : Run) : Run := { run with portions := portion :: run.portions }

end Run

/-! ## Progress -/

/-- The state of a stream behind one of its portions. The throughput and the time left, which go by
    a clock, are left out, and so is the failure that a time left beyond all durations causes. -/
structure Snapshot where
  bytes : Nat
  /-- The plaintext octets expected in all, if the caller knows. -/
  total : Option Nat
  chunks : Nat
deriving DecidableEq, Repr

/-- The part of the expected octets that is done, in percent. -/
def Snapshot.percent (s : Snapshot) : Option Float :=
  s.total.map fun total =>
    if total = 0 then 100
    else
      let percent := (UInt64.ofNat s.bytes).toFloat / (UInt64.ofNat total).toFloat * 100
      if percent < 100 then percent else 100

/-- The snapshots behind each of some portions, with `bytes` and `chunks` done before them. -/
def snapshotsFrom (total : Option Nat) (bytes chunks : Nat) : List Portion → List Snapshot
  | [] => []
  | p :: rest =>
    ⟨bytes + p.plain, total, chunks + 1⟩
      :: snapshotsFrom total (bytes + p.plain) (chunks + 1) rest

/-- The snapshots behind each of the portions of a stream. -/
def snapshots (total : Option Nat) (portions : List Portion) : List Snapshot :=
  snapshotsFrom total 0 0 portions

/-- Snapshots put one by one into a queue that already holds some. What finds no room is lost, as
    nobody takes anything out meanwhile. -/
def enqueue (capacity : Nat) (held : List Snapshot) : List Snapshot → List Snapshot
  | [] => held
  | s :: rest => enqueue capacity (if held.length < capacity then held ++ [s] else held) rest

/-- What a queue of a capacity holds of the snapshots of a stream. -/
def queued (capacity : Nat) (snapshots : List Snapshot) : List Snapshot :=
  enqueue capacity [] snapshots

/-! ## Delivery -/

/-- Where a stream is written to. -/
structure Sink where
  /-- The octets it takes before it fails, and how it fails then. -/
  limit : Option (Nat × String)
  /-- How flushing it fails. -/
  flushFailure : Option String
deriving DecidableEq, Repr

namespace Sink

/-- The sink that takes everything. -/
def unlimited : Sink := ⟨none, none⟩

/-- What a sink has taken of some writes. -/
structure Delivery where
  written : Bytes
  /-- The writes taken whole. -/
  whole : Nat
  failure : Option String
deriving DecidableEq, Repr

/-- Writes to a sink that takes `room` octets more. -/
def writeWithin (reason : String) (room : Nat) : List Bytes → Delivery
  | [] => ⟨[], 0, none⟩
  | w :: rest =>
    if w.length ≤ room then
      let d := writeWithin reason (room - w.length) rest
      ⟨w ++ d.written, d.whole + 1, d.failure⟩
    else ⟨w.take room, 0, some reason⟩

/-- Writes to a sink, in order, up to the first that it does not take whole. -/
def write (sink : Sink) (writes : List Bytes) : Delivery :=
  match sink.limit with
  | some (room, reason) => writeWithin reason room writes
  | none => ⟨writes.flatten, writes.length, none⟩

/-- Flushes a sink. -/
def flush (sink : Sink) : Except Error Unit :=
  match sink.flushFailure with
  | some reason => .error (.io reason)
  | none => .ok ()

end Sink

/-- What has become of a stream: the octets written, the portions that were reported, and how it
    ended. -/
structure Result where
  written : Bytes
  reported : List Portion
  outcome : Except Error Unit

/-- How a run ends whose writes are through, given how they went. -/
def conclude (sink : Sink) (delivery : Sink.Delivery) (outcome : Except Error Unit) :
    Except Error Unit :=
  match delivery.failure with
  | some reason => .error (.io reason)
  | none => do
    outcome
    sink.flush

/-- Delivers a run behind an opening, portion by portion. -/
def Run.deliver (run : Run) (sink : Sink) (opening : Bytes) : Result :=
  let delivery := sink.write (opening :: run.portions.map (·.octets))
  { written := delivery.written
    reported := run.portions.take (delivery.whole - 1)
    outcome := conclude sink delivery run.outcome }

/-- Delivers a run all at once, if it has ended well. -/
def Run.deliverWithheld (run : Run) (sink : Sink) : Result :=
  match run.outcome with
  | .ok () =>
    let delivery := sink.write [(run.portions.map (·.octets)).flatten]
    { written := delivery.written
      reported := run.portions
      outcome := conclude sink delivery run.outcome }
  | .error e => { written := [], reported := run.portions, outcome := .error e }

end SealedEnvelope.Stream
