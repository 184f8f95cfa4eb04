import SealedEnvelope.Stream

set_option autoImplicit false

/-! # Streams that report while they run

A stream counts its chunks and the plaintext in them. Behind each it sends a snapshot into a
channel, if the caller has given one. The channel has a capacity; its receiver takes snapshots out
of it, or closes it, as it likes. Sending waits for nobody, and whether it has worked is not looked
at.

`encryptReporting` and `decryptReporting` go through a stream as it happens: a chunk is written,
then counted, then reported, and then the receiver has its turn. -/

namespace SealedEnvelope.Stream

/-! ## Counting -/

/-- What a stream has done so far. The times that its last chunks took, from which throughput and
    time left are told, are left out. -/
structure Tracker where
  /-- The plaintext octets expected in all, if the caller knows. -/
  total : Option Nat
  bytes : Nat
  chunks : Nat
deriving DecidableEq, Repr

namespace Tracker

/-- Nothing done. -/
def start (total : Option Nat) : Tracker := ⟨total, 0, 0⟩

/-- Where the stream stands. -/
def snapshot (t : Tracker) : Snapshot := ⟨t.bytes, t.total, t.chunks⟩

/-- One chunk more. -/
def record (t : Tracker) (plain : Nat) : Tracker :=
  { t with bytes := t.bytes + plain, chunks := t.chunks + 1 }

end Tracker

/-! ## Channels -/

/-- A channel of snapshots. -/
structure Channel where
  capacity : Nat
  /-- Sent, and not yet received. -/
  held : List Snapshot
  received : List Snapshot
  closed : Bool
deriving DecidableEq, Repr

/-- Why a snapshot is not sent. -/
inductive SendFault where
  | full
  | closed
deriving DecidableEq, Repr

/-- What the receiver of a channel can do. -/
inductive ReceiverAct where
  /-- Receive the snapshot that was sent first, if there is one. -/
  | receive
  | close
deriving DecidableEq, Repr

/-- What the receiver does behind the chunk of each number. -/
abbrev Receiver := Nat → List ReceiverAct

namespace Channel

/-- A channel that nothing has been sent into. -/
def fresh (capacity : Nat) : Channel := ⟨capacity, [], [], false⟩

/-- Sends a snapshot if there is room for it. -/
def trySend (c : Channel) (s : Snapshot) : Except SendFault Unit × Channel :=
  if c.closed then (.error .closed, c)
  else if c.held.length < c.capacity then (.ok (), { c with held := c.held ++ [s] })
  else (.error .full, c)

/-- The channel behind an act of its receiver. -/
def act (c : Channel) : ReceiverAct → Channel
  | .receive =>
    match c.held with
    | [] => c
    | s :: rest => { c with held := rest, received := c.received ++ [s] }
  | .close => { c with closed := true }

/-- The channel behind one chunk: a snapshot is sent, or not, and the receiver has its turn. -/
def exchange (receiver : Receiver) (c : Channel) (s : Snapshot) : Channel :=
  (receiver s.chunks).foldl act (c.trySend s).2

end Channel

/-! ## Writing -/

/-- A sink in the middle of its writes. -/
structure Writer where
  written : Bytes
  /-- The octets that it still takes, and how it fails then. -/
  limit : Option (Nat × String)
deriving DecidableEq, Repr

namespace Writer

/-- Before anything is written. -/
def ofSink (sink : Sink) : Writer := ⟨[], sink.limit⟩

/-- Writes as many of the octets as are taken. -/
def write (w : Writer) (octets : Bytes) : Except Error Unit × Writer :=
  match w.limit with
  | none => (.ok (), { w with written := w.written ++ octets })
  | some (room, reason) =>
    if octets.length ≤ room then
      (.ok (), ⟨w.written ++ octets, some (room - octets.length, reason)⟩)
    else (.error (.io reason), ⟨w.written ++ octets.take room, some (0, reason)⟩)

end Writer

/-! ## Chunk by chunk -/

/-- What a stream carries from chunk to chunk. -/
structure Live where
  writer : Writer
  /-- The plaintext held back so far, if it is to be held back. -/
  held : Option Bytes
  tracker : Tracker
  channel : Option Channel
deriving DecidableEq, Repr

namespace Live

/-- Writes the octets of a chunk, or holds them back. -/
def release (live : Live) (octets : Bytes) : Except Error Unit × Live :=
  match live.held with
  | some held => (.ok (), { live with held := some (held ++ octets) })
  | none =>
    let (outcome, writer) := live.writer.write octets
    (outcome, { live with writer })

/-- Counts a chunk and reports it. -/
def report (receiver : Receiver) (live : Live) (plain : Nat) : Live :=
  let tracker := live.tracker.record plain
  { live with
    tracker
    channel := live.channel.map fun c => c.exchange receiver tracker.snapshot }

/-- Releases and reports one portion after the other, up to the first that is not taken whole. -/
def pass (receiver : Receiver) : List Portion → Live → Except Error Unit × Live
  | [], live => (.ok (), live)
  | p :: rest, live =>
    match live.release p.octets with
    | (.ok (), live) => pass receiver rest (live.report receiver p.plain)
    | (.error e, live) => (.error e, live)

/-- Writes what has been held back, and flushes. -/
def settle (sink : Sink) (live : Live) : Except Error Unit × Live :=
  match live.writer.write (live.held.getD []) with
  | (.ok (), writer) => (sink.flush, { live with writer })
  | (.error e, writer) => (.error e, { live with writer })

end Live

/-- What has become of a stream, and of the channel that it has reported into. -/
structure Reported where
  written : Bytes
  outcome : Except Error Summary
  channel : Option Channel

/-- What has become of a stream that ends here. -/
def Live.ended (live : Live) (kind : Kind) (outcome : Except Error Unit) : Reported :=
  { written := live.writer.written
    outcome := outcome.map fun _ =>
      { kind, chunks := live.tracker.chunks, plaintextBytes := live.tracker.bytes }
    channel := live.channel }

/-- Carries out a run behind an opening. -/
def Run.perform (run : Run) (sink : Sink) (opening : Bytes) (withhold : Bool) (total : Option Nat)
    (kind : Kind) (channel : Option Channel) (receiver : Receiver) : Reported :=
  match (Writer.ofSink sink).write opening with
  | (.error e, writer) => ⟨writer.written, .error e, channel⟩
  | (.ok (), writer) =>
    let held := if withhold then some [] else none
    match Live.pass receiver run.portions ⟨writer, held, .start total, channel⟩ with
    | (.error e, live) => live.ended kind (.error e)
    | (.ok (), live) =>
      match run.outcome with
      | .error e => live.ended kind (.error e)
      | .ok () =>
        let (outcome, live) := live.settle sink
        live.ended kind outcome

/-! ## Both directions -/

/-- Encrypts as `encryptUnder` does, and reports into a channel. -/
def encryptUnderReporting (config : Config) (established : Established) (source : Source)
    (sink : Sink) (options : Options) (channel : Option Channel) (receiver : Receiver) :
    Except Error Reported := do
  let header := established.header
  let bytes ← header.encode config
  let opening := (← LengthPrefix.append [] bytes.length) ++ bytes
  let ctx := ⟨established.key, header.baseIv, Header.hash bytes⟩
  let run := closeAll ctx header.chunkSize.toNat options.cancelled source
  return run.perform sink opening false options.total header.kind channel receiver

/-- Encrypts as `encrypt` does, and reports into a channel. -/
def encryptReporting (config : Config) (mode : Mode) (recipients : List Recipient)
    (source : Source) (sink : Sink) (options : Options) (channel : Option Channel)
    (receiver : Receiver) : Draw Reported := do
  let result ← ExceptT.run do
    let established ← establish config mode recipients options.chunkSize
    encryptUnderReporting config established source sink options channel receiver
  match result with
  | .ok reported => return reported
  | .error e => return ⟨[], .error e, channel⟩

/-- Decrypts as `decryptFor` does, and reports into a channel. -/
def decryptForReporting (config : Config) (key : PrivateKey) (id : Option Bytes) (source : Source)
    (sink : Sink) (options : Options) (channel : Option Channel) (receiver : Receiver) :
    Reported :=
  match openHeader config key id source with
  | .error e => ⟨[], .error e, channel⟩
  | .ok opened =>
    (opened.run options.cancelled).perform sink [] options.withhold options.total
      opened.header.kind channel receiver

/-- Decrypts as `decrypt` does, and reports into a channel. -/
def decryptReporting (config : Config) (privateKey : Bytes) (id : Option Bytes) (source : Source)
    (sink : Sink) (options : Options) (channel : Option Channel) (receiver : Receiver) :
    Reported :=
  match PrivateKey.ofBytes privateKey with
  | .error e => ⟨[], .error e, channel⟩
  | .ok key => decryptForReporting config key id source sink options channel receiver

end SealedEnvelope.Stream
