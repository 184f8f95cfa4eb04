import SealedEnvelope.Proofs.Stream.Channel
import SealedEnvelope.Proofs.Stream.Run

set_option autoImplicit false

/-! # Reporting changes nothing

A stream that reports into a channel writes what it writes without one, and ends as it does without
one (`encryptReporting_eq`, `decryptReporting_eq`): the channel only ever gets the snapshots of the
report, one after the other, and nothing comes back from it. -/

namespace SealedEnvelope.Stream

variable {receiver : Receiver} {sink : Sink}

/-! ## Writing bit by bit -/

namespace Sink.Delivery

/-- One write more, which has been taken whole. -/
def cons (octets : Bytes) (d : Delivery) : Delivery :=
  ⟨octets ++ d.written, d.whole + 1, d.failure⟩

/-- How some writes have ended. -/
def outcome (d : Delivery) : Except Error Unit :=
  match d.failure with
  | some reason => .error (.io reason)
  | none => .ok ()

end Sink.Delivery

/-- A writer takes the octets and goes on as the sink would behind them, or it fails as the sink
    does. -/
theorem Writer.write_cases (w : Writer) (octets : Bytes) (flushFailure : Option String) :
    (∃ w', w.write octets = (.ok (), w') ∧ w'.written = w.written ++ octets
      ∧ ∀ writes, (Sink.mk w.limit flushFailure).write (octets :: writes)
        = .cons octets ((Sink.mk w'.limit flushFailure).write writes))
    ∨ ∃ w' part reason, w.write octets = (.error (.io reason), w') ∧ w'.written = w.written ++ part
      ∧ ∀ writes, (Sink.mk w.limit flushFailure).write (octets :: writes)
        = ⟨part, 0, some reason⟩ := by
  cases hlimit : w.limit with
  | none =>
    refine Or.inl ⟨⟨w.written ++ octets, none⟩, ?_, rfl, fun writes => ?_⟩
    · simp only [write, hlimit]
    · simp [Sink.write, Sink.Delivery.cons]
  | some limit =>
    obtain ⟨room, reason⟩ := limit
    by_cases hroom : octets.length ≤ room
    · refine Or.inl ⟨⟨w.written ++ octets, some (room - octets.length, reason)⟩, ?_, rfl,
        fun writes => ?_⟩
      · simp only [write, hlimit, if_pos hroom]
      · simp only [Sink.write, Sink.writeWithin, if_pos hroom]
        rfl
    · refine Or.inr ⟨⟨w.written ++ octets.take room, some (0, reason)⟩, octets.take room, reason,
        ?_, rfl, fun writes => ?_⟩
      · simp only [write, hlimit, if_neg hroom]
      · simp only [Sink.write, Sink.writeWithin, if_neg hroom]

theorem Writer.write_nil (w : Writer) : w.write [] = (.ok (), w) := by
  obtain ⟨written, limit⟩ := w
  cases limit <;> simp [write]

@[simp] theorem Sink.write_nil (sink : Sink) : sink.write [] = ⟨[], 0, none⟩ := by
  rw [write]
  split <;> rfl

/-! ## Passing portions -/

namespace Live

/-- The state behind portions that have been counted and reported. -/
def behind (receiver : Receiver) (live : Live) (portions : List Portion) : Live :=
  let t := live.tracker
  { live with
    tracker := ⟨t.total, t.bytes + plainOf portions, t.chunks + portions.length⟩
    channel := live.channel.map fun c =>
      c.behind receiver (snapshotsFrom t.total t.bytes t.chunks portions) }

theorem behind_nil (receiver : Receiver) (live : Live) : live.behind receiver [] = live := by
  obtain ⟨writer, held, tracker, channel⟩ := live
  cases channel <;> rfl

/-- Counting one portion and then the others is counting them all. -/
theorem behind_report (receiver : Receiver) (live : Live) (p : Portion) (rest : List Portion) :
    (live.report receiver p.plain).behind receiver rest = live.behind receiver (p :: rest) := by
  unfold behind report Tracker.record
  simp only [Option.map_map, plainOf, List.length_cons, Live.mk.injEq, Tracker.mk.injEq, true_and]
  refine ⟨⟨?_, ?_⟩, rfl⟩ <;> omega

/-- Portions that are not held back are written, counted and reported, up to the first that is not
    taken whole. -/
theorem pass_of_held_none (live : Live) (receiver : Receiver) (portions : List Portion)
    (flushFailure : Option String) (hheld : live.held = none) :
    ∃ w d, (Sink.mk live.writer.limit flushFailure).write (portions.map (·.octets)) = d
      ∧ live.pass receiver portions
        = (d.outcome, { live.behind receiver (portions.take d.whole) with writer := w })
      ∧ w.written = live.writer.written ++ d.written := by
  induction portions generalizing live with
  | nil =>
    refine ⟨live.writer, ⟨[], 0, none⟩, Sink.write_nil _, ?_, (List.append_nil _).symm⟩
    rw [List.take_nil, behind_nil]
    rfl
  | cons p rest ih =>
    rcases live.writer.write_cases p.octets flushFailure with
      ⟨w', hwrite, hwritten, hsink⟩ | ⟨w', part, reason, hwrite, hwritten, hsink⟩
    · have hrelease : live.release p.octets = (.ok (), { live with writer := w' }) := by
        simp only [release, hheld, hwrite]
      obtain ⟨w, d, hd, hpass, hw⟩ :=
        ih (report receiver { live with writer := w' } p.plain) hheld
      refine ⟨w, d.cons p.octets, (hsink _).trans (congrArg _ hd), ?_, ?_⟩
      · rw [pass, hrelease]
        simp only [hpass]
        rw [behind_report, Sink.Delivery.cons, List.take_succ_cons]
        rfl
      · rw [hw, Sink.Delivery.cons, ← List.append_assoc, ← hwritten]
        rfl
    · have hrelease : live.release p.octets
          = (.error (.io reason), { live with writer := w' }) := by
        simp only [release, hheld, hwrite]
      refine ⟨w', ⟨part, 0, some reason⟩, hsink _, ?_, hwritten⟩
      rw [pass, hrelease, List.take_zero, behind_nil]
      rfl

/-- Portions that are held back are all counted and reported. -/
theorem pass_of_held_some (live : Live) (receiver : Receiver) (portions : List Portion)
    {held : Bytes} (hheld : live.held = some held) :
    live.pass receiver portions
      = (.ok (), { live.behind receiver portions with
          held := some (held ++ (portions.map (·.octets)).flatten) }) := by
  induction portions generalizing live held with
  | nil =>
    rw [behind_nil, List.map_nil, List.flatten_nil, List.append_nil, ← hheld]
    rfl
  | cons p rest ih =>
    have hrelease : live.release p.octets
        = (.ok (), { live with held := some (held ++ p.octets) }) := by
      simp only [release, hheld]
    rw [pass, hrelease]
    simp only
    rw [ih (report receiver { live with held := some (held ++ p.octets) } p.plain) rfl,
      behind_report, List.map_cons, List.flatten_cons, ← List.append_assoc]
    rfl

/-- Where nothing has been held back, only the flush is left. -/
theorem settle_of_held_none {live : Live} (sink : Sink) (hheld : live.held = none) :
    live.settle sink = (sink.flush, live) := by
  obtain ⟨writer, held, tracker, channel⟩ := live
  obtain rfl : held = none := hheld
  rw [settle, Option.getD_none, Writer.write_nil]

/-- What has been held back is written at once. -/
theorem settle_of_held_some (live : Live) (sink : Sink) {held : Bytes}
    (hheld : live.held = some held) :
    ∃ w d, (Sink.mk live.writer.limit sink.flushFailure).write [held] = d
      ∧ live.settle sink = (conclude sink d (.ok ()), { live with writer := w })
      ∧ w.written = live.writer.written ++ d.written := by
  rcases live.writer.write_cases held sink.flushFailure with
    ⟨w, hwrite, hwritten, hsink⟩ | ⟨w, part, reason, hwrite, hwritten, hsink⟩
  · refine ⟨w, ⟨held, 1, none⟩, ?_, ?_, hwritten⟩
    · rw [hsink, Sink.write_nil, Sink.Delivery.cons, List.append_nil]
    · simp only [settle, hheld, Option.getD_some, hwrite]
      rfl
  · refine ⟨w, ⟨part, 0, some reason⟩, hsink _, ?_, hwritten⟩
    simp only [settle, hheld, Option.getD_some, hwrite]
    rfl

end Live

/-! ## Whole runs -/

/-- A report, and what has become of the channel that its snapshots were sent into. -/
def Report.reportedTo (report : Report) (channel : Option Channel) (receiver : Receiver) :
    Reported :=
  { written := report.written
    outcome := report.outcome
    channel := channel.map fun c => c.behind receiver report.snapshots }

/-- Where nothing is reported, the channel is left alone. -/
theorem Report.reportedTo_of_unreported {report : Report} (h : report.snapshots = [])
    (channel : Option Channel) (receiver : Receiver) :
    report.reportedTo channel receiver = ⟨report.written, report.outcome, channel⟩ := by
  rw [reportedTo, h]
  cases channel <;> rfl

@[simp] theorem Report.reportedTo_failed (e : Error) (channel : Option Channel)
    (receiver : Receiver) : (failed e).reportedTo channel receiver = ⟨[], .error e, channel⟩ :=
  reportedTo_of_unreported rfl channel receiver

namespace Run

variable {run : Run} {opening : Bytes} {total : Option Nat} {kind : Kind}
  {channel : Option Channel}

/-- A stream that ends behind some portions has reported these. -/
theorem ended_behind (w w' : Writer) (held held' : Option Bytes) (portions : List Portion)
    (outcome : Except Error Unit) :
    Live.ended { Live.behind receiver ⟨w, held, .start total, channel⟩ portions with
        writer := w', held := held' } kind outcome
      = (Result.report ⟨w'.written, portions, outcome⟩ total kind).reportedTo channel receiver := by
  simp only [Live.ended, Live.behind, Tracker.start, Nat.zero_add]
  rfl

/-- Chunk by chunk a run is delivered as it is without a channel. -/
theorem perform_immediate :
    run.perform sink opening false total kind channel receiver
      = ((run.deliver sink opening).report total kind).reportedTo channel receiver := by
  rw [perform, deliver]
  rcases (Writer.ofSink sink).write_cases opening sink.flushFailure with
    ⟨w, hwrite, hwritten, hsink⟩ | ⟨w, part, reason, hwrite, hwritten, hsink⟩
  · obtain ⟨w', ⟨written, whole, failure⟩, hd, hpass, hw'⟩ :=
      Live.pass_of_held_none ⟨w, none, .start total, channel⟩ receiver run.portions
        sink.flushFailure rfl
    have hdelivery : sink.write (opening :: run.portions.map (·.octets))
        = ⟨w'.written, whole + 1, failure⟩ := by
      rw [hw', show w.written = opening from hwritten]
      exact (hsink _).trans (congrArg _ hd)
    rw [hdelivery, hwrite]
    cases failure with
    | some reason =>
      simp only [Bool.false_eq_true, if_false, hpass, Sink.Delivery.outcome]
      exact ended_behind ..
    | none =>
      simp only [Bool.false_eq_true, if_false, hpass, Sink.Delivery.outcome, conclude]
      cases run.outcome with
      | error e => exact ended_behind ..
      | ok _ =>
        simp only
        rw [Live.settle_of_held_none sink]
        · exact ended_behind ..
        · rfl
  · rw [show sink.write (opening :: _) = _ from hsink _, hwrite,
      Report.reportedTo_of_unreported rfl]
    simp only [show w.written = part from hwritten]
    rfl

/-- Withheld, a run is delivered as it is without a channel. -/
theorem perform_withheld :
    run.perform sink [] true total kind channel receiver
      = ((run.deliverWithheld sink).report total kind).reportedTo channel receiver := by
  have hpass := Live.pass_of_held_some ⟨.ofSink sink, some [], .start total, channel⟩ receiver
    run.portions rfl
  rw [perform, deliverWithheld, Writer.write_nil]
  simp only [if_true, hpass, List.nil_append]
  cases run.outcome with
  | error e => exact ended_behind ..
  | ok _ =>
    obtain ⟨w, d, hd, hsettle, hwritten⟩ := Live.settle_of_held_some
      { Live.behind receiver ⟨.ofSink sink, some [], .start total, channel⟩ run.portions with
        held := some (run.portions.map (·.octets)).flatten } sink rfl
    have hdelivery : sink.write [(run.portions.map (·.octets)).flatten] = d := hd
    simp only [hsettle, hdelivery, ← show w.written = d.written from hwritten]
    exact ended_behind ..

end Run

/-! ## Both directions -/

section

variable {config : Config} {mode : Mode} {recipients : List Recipient} {established : Established}
  {privateKey : Bytes} {key : PrivateKey} {id : Option Bytes} {source input : Source}
  {options : Options} {channel : Option Channel}

theorem encryptUnderReporting_eq :
    encryptUnderReporting config established source sink options channel receiver
      = (encryptUnder config established source sink options).map
        fun report => report.reportedTo channel receiver := by
  simp only [encryptUnderReporting, encryptUnder, Run.perform_immediate]
  cases established.header.encode config with
  | error e => rfl
  | ok bytes =>
    cases hlength : LengthPrefix.append [] bytes.length with
    | error e => simp [hlength, Except.map, bind, Except.bind]
    | ok opening => simp [hlength, Except.map, bind, Except.bind, pure, Except.pure]

/-- An encryption that reports is the encryption that does not. -/
theorem encryptReporting_eq :
    encryptReporting config mode recipients source sink options channel receiver
      = (fun report => report.reportedTo channel receiver)
        <$> encrypt config mode recipients source sink options := by
  rw [encryptReporting, encrypt, ExceptT.run_bind, ExceptT.run_bind, map_bind, bind_assoc,
    bind_assoc]
  refine bind_congr fun established => ?_
  cases established with
  | error e => simp
  | ok established =>
    simp only [encryptUnderReporting_eq]
    cases encryptUnder config established source sink options with
    | error e =>
      exact congrArg (pure : Reported → Draw Reported)
        (Report.reportedTo_failed e channel receiver).symm
    | ok report => rfl

theorem decryptForReporting_eq :
    decryptForReporting config key id input sink options channel receiver
      = (decryptFor config key id input sink options).reportedTo channel receiver := by
  rw [decryptForReporting, decryptFor]
  cases openHeader config key id input with
  | error e => exact (Report.reportedTo_failed ..).symm
  | ok opened =>
    cases hwithhold : options.withhold with
    | true => exact Run.perform_withheld
    | false => exact Run.perform_immediate

/-- A decryption that reports is the decryption that does not. -/
theorem decryptReporting_eq :
    decryptReporting config privateKey id input sink options channel receiver
      = (decrypt config privateKey id input sink options).reportedTo channel receiver := by
  rw [decryptReporting, decrypt]
  cases PrivateKey.ofBytes privateKey with
  | error e => exact (Report.reportedTo_failed ..).symm
  | ok key => exact decryptForReporting_eq

end

end SealedEnvelope.Stream
