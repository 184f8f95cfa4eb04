import SealedEnvelope.Proofs.Stream.Establish
import SealedEnvelope.Proofs.Stream.Opening
import SealedEnvelope.Proofs.Stream.Run

set_option autoImplicit false

/-! # The layout of an accepted stream

A stream that is accepted consists of a header behind its length and of frames, each length in some
width (`exists_layout_of_decrypt`). Where such a layout stands at the front of an input, decryption
releases what the frames open to and then looks whether anything follows
(`Layout.Opens.decryptFor_eq`). No assumption on the cipher is made: which frames open is a matter
of the octets that are there. -/

namespace SealedEnvelope.Stream

variable {config : Config} {privateKey : Bytes} {key : PrivateKey} {id : Option Bytes}
  {input : Source} {sink : Sink} {options : Options} {summary : Summary}

/-- The parts of a stream. -/
structure Layout where
  header : Header
  /-- The width in which the header's length is written. -/
  width : LengthPrefix.Width
  frames : List Frame
deriving DecidableEq, Repr

namespace Layout

/-- The header behind its length. -/
def opening (l : Layout) : Bytes := l.header.openingIn l.width

/-- The octets of a stream. -/
def octets (l : Layout) : Bytes := l.opening ++ l.frames.flatMap Frame.octets

/-- The layout that is written for a header and chunks. -/
def narrow (header : Header) (chunks : List Chunk) : Layout :=
  ⟨header, LengthPrefix.Width.ofLength header.octets.length, chunks.map Frame.narrow⟩

theorem octets_narrow (header : Header) (chunks : List Chunk) :
    (narrow header chunks).octets = header.opening ++ chunks.flatMap Chunk.octets := by
  rw [octets, opening, narrow, flatMap_octets_narrow]
  rfl

/-- A layout that is accepted with `taken` octets read before it, the key of the stream, and the
    pieces that its frames open to. -/
structure Opens (l : Layout) (config : Config) (key : PrivateKey) (id : Option Bytes)
    (cancelled : Checkpoint → Bool) (taken : Nat) (streamKey : Octets 32) (pieces : List Bytes) :
    Prop where
  opening : Established.OpensIn ⟨l.header, streamKey⟩ config key id l.width
  frames : OpensFrom (Established.context ⟨l.header, streamKey⟩) l.header.chunkSize.toNat cancelled
    0 (taken + l.opening.length) l.frames pieces

end Layout

/-! ## Reports -/

theorem Result.written_report (result : Result) (total : Option Nat) (kind : Kind) :
    (result.report total kind).written = result.written := rfl

/-- A report is good if the result is, and sums it up. -/
theorem Result.outcome_report_eq_ok_iff {result : Result} {total : Option Nat} {kind : Kind}
    {summary : Summary} :
    (result.report total kind).outcome = .ok summary
      ↔ result.outcome = .ok ()
        ∧ ⟨kind, result.reported.length, plainOf result.reported⟩ = summary := by
  rw [report]
  cases result.outcome with
  | ok _ => simp [Except.map]
  | error e => simp [Except.map]

theorem Result.outcome_report_of_error {result : Result} {total : Option Nat} {kind : Kind}
    {e : Error} (h : result.outcome = .error e) :
    (result.report total kind).outcome = .error e := by
  rw [report, h]
  rfl

/-! ## Decryption in terms of runs -/

theorem decryptFor_of_openHeader {opened : Opened}
    (h : openHeader config key id input = .ok opened) :
    decryptFor config key id input sink options
      = ((opened.run options.cancelled).release sink options.withhold).report options.total
        opened.header.kind := by
  rw [decryptFor, h]
  rfl

theorem decrypt_of_ofBytes (h : PrivateKey.ofBytes privateKey = .ok key) :
    decrypt config privateKey id input sink options
      = decryptFor config key id input sink options := by
  rw [decrypt, h]

/-- A run whose pieces are released well, and the report of that. -/
theorem report_of_pieces {pieces : List Bytes} {kind : Kind} {total : Option Nat}
    {withhold : Bool} (h : ((Run.mk (pieces.map openedPortion) (.ok ())).release sink
      withhold).outcome = .ok ()) :
    let report := ((Run.mk (pieces.map openedPortion) (.ok ())).release sink withhold).report
      total kind
    report.written = pieces.flatten
      ∧ report.outcome = .ok ⟨kind, pieces.length, pieces.flatten.length⟩ := by
  obtain ⟨-, hrelease⟩ := Run.release_of_outcome_ok h
  simp only [hrelease, Result.report, flatten_openedPortion, plainOf_openedPortion,
    List.length_map, Except.map, and_self]

/-- Where pieces are released well, a run that fails behind the first of them reports its failure
    and, unless it is withheld, has written these. -/
theorem report_of_first_pieces {pieces first : List Bytes} {kind : Kind} {total : Option Nat}
    {withhold : Bool} {e : Error} (h : ((Run.mk (pieces.map openedPortion) (.ok ())).release sink
      withhold).outcome = .ok ()) (hfirst : first <+: pieces) :
    let report := ((Run.mk (first.map openedPortion) (.error e)).release sink withhold).report
      total kind
    report.outcome = .error e ∧ (withhold = false → report.written = first.flatten) := by
  have hportions : first.map openedPortion <+: pieces.map openedPortion := hfirst.map _
  have hrelease : (Run.mk (first.map openedPortion) (.error e)).release sink withhold = _ :=
    Run.release_of_initial h hportions rfl
  simp only [hrelease, Result.report, flatten_openedPortion, Except.map, true_and]
  intro hwithhold
  rw [if_neg (by simp [hwithhold])]

/-! ## Accepted streams -/

/-- An accepted stream is a layout that opens, and all that its frames open to is released. -/
theorem exists_layout_of_decrypt
    (hok : (decrypt config privateKey id input sink options).outcome = .ok summary) :
    ∃ key layout streamKey pieces, PrivateKey.ofBytes privateKey = .ok key
      ∧ Layout.Opens layout config key id options.cancelled input.taken streamKey pieces
      ∧ input.bytes = layout.octets ∧ input.ending = .finished
      ∧ ((Run.mk (pieces.map openedPortion) (.ok ())).release sink options.withhold).outcome
        = .ok () := by
  cases hkey : PrivateKey.ofBytes privateKey with
  | error e =>
    rw [decrypt, hkey] at hok
    cases hok
  | ok key =>
    rw [decrypt_of_ofBytes hkey] at hok
    cases hopen : openHeader config key id input with
    | error e =>
      rw [decryptFor, hopen] at hok
      cases hok
    | ok opened =>
      obtain ⟨established, width, hopening, hheader, hcontext, hleaves⟩ :=
        exists_opening_of_openHeader hopen
      rw [decryptFor_of_openHeader hopen, Result.outcome_report_eq_ok_iff] at hok
      obtain ⟨hreleased, -⟩ := hok
      obtain ⟨hrun, -⟩ := Run.release_of_outcome_ok hreleased
      obtain ⟨frames, pieces, hframes, hbytes, hending, heq⟩ := exists_opensFrom hrun
      rw [hleaves.taken, hheader, hcontext] at hframes
      rw [Opened.run, heq] at hreleased
      refine ⟨key, ⟨established.header, width, frames⟩, established.key, pieces, rfl,
        ⟨hopening, hframes⟩, ?_, hleaves.ending.symm.trans hending, hreleased⟩
      rw [hleaves.bytes, hbytes]
      rfl

namespace Layout.Opens

variable {layout : Layout} {streamKey : Octets 32} {pieces : List Bytes} {rest : Bytes}
  {cancelled : Checkpoint → Bool}

/-- The header of a layout that opens is read at the front of an input, and the frames open where
    it ends. -/
theorem exists_openHeader
    (h : layout.Opens config key id cancelled input.taken streamKey pieces)
    (hbytes : input.bytes = layout.opening ++ rest) :
    ∃ opened, openHeader config key id input = .ok opened ∧ opened.header = layout.header
      ∧ opened.source.bytes = rest ∧ opened.source.ending = input.ending
      ∧ OpensFrom opened.context opened.header.chunkSize.toNat cancelled 0 opened.source.taken
        layout.frames pieces := by
  obtain ⟨s, hopen, hleaves⟩ := h.opening.exists_openHeader hbytes
  have htaken : s.taken = input.taken + layout.opening.length := hleaves.taken
  have hframes := h.frames
  rw [← htaken] at hframes
  exact ⟨_, hopen, rfl, hleaves.bytes_eq hbytes, hleaves.ending, hframes⟩

/-- A layout that opens at the front of an input is read to its end, whatever follows. -/
theorem decryptFor_eq (sink : Sink)
    (h : layout.Opens config key id options.cancelled input.taken streamKey pieces)
    (hbytes : input.bytes = layout.octets ++ rest) :
    ∃ s', s'.bytes = rest ∧ s'.ending = input.ending
      ∧ decryptFor config key id input sink options
        = ((Run.mk (pieces.map openedPortion) (Prod.fst <$> checkEnd s')).release sink
          options.withhold).report options.total layout.header.kind := by
  rw [octets, List.append_assoc] at hbytes
  obtain ⟨opened, hopen, hheader, hleft, hending, hframes⟩ := h.exists_openHeader hbytes
  have hfuel : layout.frames.length ≤ opened.source.bytes.length + 1 := by
    have hlength := length_le_flatMap_octets layout.frames
    rw [hleft, List.length_append]
    omega
  obtain ⟨s', hleaves, hrun⟩ := hframes.openFrom_eq hleft hfuel
  refine ⟨s', hleaves.bytes_eq hleft, hleaves.ending.trans hending, ?_⟩
  rw [decryptFor_of_openHeader hopen, Opened.run, hrun, hheader]

/-- To a sink that takes everything, a layout that opens is decrypted to its pieces. -/
theorem decryptFor_unlimited
    (h : layout.Opens config key id options.cancelled input.taken streamKey pieces)
    (hbytes : input.bytes = layout.octets) (hending : input.ending = .finished) :
    (decryptFor config key id input .unlimited options).written = pieces.flatten
      ∧ (decryptFor config key id input .unlimited options).outcome
        = .ok ⟨layout.header.kind, pieces.length, pieces.flatten.length⟩ := by
  obtain ⟨s', hs', hending', hdecrypt⟩ :=
    h.decryptFor_eq .unlimited (hbytes.trans (List.append_nil _).symm)
  rw [hdecrypt, checkEnd_of_finished hs' (hending'.trans hending)]
  exact report_of_pieces (Run.release_unlimited rfl)

end Layout.Opens

end SealedEnvelope.Stream
