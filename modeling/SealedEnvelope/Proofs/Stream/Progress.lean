import SealedEnvelope.Proofs.Stream.Counting
import SealedEnvelope.Proofs.Stream.Reporting

set_option autoImplicit false

/-! # Progress in both directions

Whoever decrypts what an encryption has written verifies the chunks that stand whole there, however
far the encryption has come, and so counts as it has counted (`counted_decryptFor`). Reports are
exact in both directions, and nothing changes with the channel that they go into. -/

namespace SealedEnvelope.Stream

variable {n index taken count : Nat} {cancelled : Checkpoint → Bool} {s : Source} {ctx : Context}
  {opening written rest : Bytes} {units pieces : List Bytes} {frames : List Frame}

/-! ## What stands whole -/

namespace StandWhole

theorem front (h : StandWhole [] units written count) (hle : count ≤ units.length) :
    (units.take count).flatten <+: written := by
  cases count with
  | zero => exact List.nil_prefix
  | succ k => simpa using (h k hle).2 (Nat.lt_succ_self k)

theorem le_of_front {k : Nat} (h : StandWhole [] units written count) (hk : k ≤ units.length)
    (hfront : (units.take k).flatten <+: written) : k ≤ count := by
  cases k with
  | zero => exact Nat.zero_le _
  | succ k => exact (h k hk).1 hfront

/-- Behind an opening that is written, the units stand as they do without one. -/
theorem behind_opening (h : StandWhole opening units (opening ++ rest) count) :
    StandWhole [] units rest count := by
  intro i hi
  rw [← h i hi, List.prefix_append_right_inj, List.nil_append]

end StandWhole

/-! ## What is verified of it -/

/-- The first chunks of pieces are verified, whoever does not cancel. -/
theorem verifiesFrom_closeChunks (hcancelled : ∀ c, cancelled c = false)
    (hlength : ∀ p ∈ pieces, p.length ≤ n) (hceiling : n + 16 ≤ LengthPrefix.maxLength)
    {k : Nat} (hcount : index + k ≤ lastIndex + 1) (taken : Nat) :
    VerifiesFrom ctx n cancelled index taken
      (((ctx.closeChunks index pieces).take k).map Frame.narrow) (pieces.take k) := by
  induction pieces generalizing index taken k with
  | nil => simpa [Context.closeChunks] using VerifiesFrom.nil
  | cons piece rest ih =>
    cases k with
    | zero => exact .nil
    | succ k =>
      rw [Context.closeChunks, List.take_succ_cons, List.map_cons, List.take_succ_cons]
      refine .cons (opensAt_close hcancelled (by omega) taken rest.isEmpty
        (hlength piece (List.mem_cons_self ..)) hceiling) (fun hne => ?_)
        (ih (fun p hp => hlength p (List.mem_cons_of_mem _ hp)) (by omega) _)
      -- More chunks are sealed behind this one, so it is not the last and has no last number.
      cases rest with
      | nil => simp [Context.closeChunks] at hne
      | cons second rest =>
        cases k with
        | zero => exact absurd rfl hne
        | succ k => exact ⟨ctx.isFinal_close index false piece, by omega⟩

section Verified

variable {sealed : List Frame} {whole : List Bytes}

/-- What is verified at the front of frames that open are the first of these. -/
theorem Verified.eq_take (h : Verified ctx n cancelled s frames pieces)
    {never : Checkpoint → Bool} (hsealed : VerifiesFrom ctx n never 0 taken sealed whole)
    (hbytes : s.bytes <+: sealed.flatMap Frame.octets) :
    frames.length ≤ sealed.length ∧ frames = sealed.take frames.length
      ∧ pieces = whole.take frames.length := by
  obtain ⟨behind, hbehind⟩ := h.front
  obtain ⟨lost, hlost⟩ := hbytes
  have heq : frames.flatMap Frame.octets ++ (behind ++ lost)
      = sealed.flatMap Frame.octets ++ [] := by
    rw [← List.append_assoc, hbehind, hlost, List.append_nil]
  -- There are no more frames than were sealed, since those take up all the octets.
  have hle : frames.length ≤ sealed.length := by
    by_contra hmany
    obtain ⟨hinitial, -⟩ := hsealed.prefix_of_length_le h.verifies heq.symm (by omega)
    have hlength := (h.front.trans ⟨lost, hlost⟩).length_le
    exact hmany (congrArg List.length (eq_of_prefix_of_octets hinitial hlength)).ge
  obtain ⟨hframes, hpieces⟩ := h.verifies.prefix_of_length_le hsealed heq hle
  refine ⟨hle, List.prefix_iff_eq_take.1 hframes, ?_⟩
  rw [h.verifies.length_eq]
  exact List.prefix_iff_eq_take.1 hpieces

/-- Of frames that open, and that stand in some octets up to a count, no more are verified there
    than stand whole, and just these if nobody cancels or nothing is left. -/
theorem Verified.of_standWhole (h : Verified ctx n cancelled s frames pieces)
    (hsealed : ∀ (never : Checkpoint → Bool) (taken : Nat), (∀ c, never c = false) →
      VerifiesFrom ctx n never 0 taken sealed whole)
    (hstand : StandWhole [] (sealed.map Frame.octets) s.bytes count)
    (hle : count ≤ sealed.length) (hbytes : s.bytes <+: sealed.flatMap Frame.octets) :
    pieces <+: whole.take count
      ∧ ((∀ c, cancelled c = false) ∨ s.bytes = frames.flatMap Frame.octets →
        pieces = whole.take count) := by
  obtain ⟨hfew, hframes, hfirst⟩ := h.eq_take (hsealed (fun _ => false) 0 fun _ => rfl) hbytes
  have hfront : (sealed.take count).flatMap Frame.octets <+: s.bytes := by
    rw [List.flatMap_def, List.map_take]
    exact hstand.front (by rwa [List.length_map])
  have hreached : frames.length ≤ count := by
    refine hstand.le_of_front (by rwa [List.length_map]) ?_
    rw [← List.map_take, ← hframes, ← List.flatMap_def]
    exact h.front
  have hinitial : pieces <+: whole.take count := by
    rw [hfirst]
    exact List.take_prefix_take_left hreached
  refine ⟨hinitial, ?_⟩
  rintro (hcancelled | hall)
  · exact hinitial.eq_of_length_le
      (h.longest ((hsealed cancelled s.taken hcancelled).take count) hfront).length_le
  · have hstart : frames <+: sealed.take count := by
      rw [hframes]
      exact List.take_prefix_take_left hreached
    rw [hall] at hfront
    have hequal := congrArg List.length (eq_of_prefix_of_octets hstart hfront.length_le)
    rw [List.length_take, Nat.min_eq_left hle] at hequal
    rw [hfirst, hequal]

end Verified

/-! ## What is decrypted of it -/

section Decryption

variable {config : Config} {established : Established} {key : PrivateKey} {id : Option Bytes}
  {source input : Source} {sink : Sink} {options : Options} {report : Report}

/-- A header of which something is missing is not read. -/
theorem openHeader_of_cut (key : PrivateKey) (id : Option Bytes)
    (hvalid : established.header.Valid config)
    (hcut : input.bytes <+: established.header.opening)
    (hmissing : ¬established.header.opening <+: input.bytes) :
    ∃ e, openHeader config key id input = .error e := by
  cases hopen : openHeader config key id input with
  | error e => exact ⟨e, rfl⟩
  | ok opened =>
    obtain ⟨other, width, hopens, -, -, hleaves⟩ := exists_opening_of_openHeader hopen
    obtain ⟨lost, hlost⟩ := hcut
    have heq : other.header.openingIn width ++ (opened.source.bytes ++ lost)
        = established.header.opening ++ [] := by
      rw [← List.append_assoc, ← hleaves.bytes, hlost, List.append_nil]
    obtain ⟨hopening, -⟩ := (reads_readHeader config).unique
      ⟨_, width, rfl, hopens.valid, hopens.holds, rfl⟩
      ⟨_, _, rfl, hvalid, hvalid.holds_ofLength, rfl⟩ heq
    refine absurd ?_ hmissing
    rw [hleaves.bytes, hopening]
    exact List.prefix_append _ _

/-- Behind the header of what an encryption has written, no more is verified than the chunks that
    stand whole there, and just these if nobody cancels or nothing is left. -/
theorem Verified.of_encryptUnder {frames : List Frame} {pieces : List Bytes}
    {cancelled : Checkpoint → Bool} (hvalid : established.header.Valid config)
    (hunder : encryptUnder config established source sink options = .ok report)
    (hle : count ≤ (established.closed options.cancelled source).length)
    (hstand : StandWhole established.header.opening
      ((established.closed options.cancelled source).map Chunk.octets) report.written count)
    (hbytes : established.header.opening ++ s.bytes = report.written)
    (hverified : Verified established.context established.header.chunkSize.toNat cancelled s frames
      pieces) :
    pieces <+: (cut established.header.chunkSize.toNat source.bytes).take count
      ∧ ((∀ c, cancelled c = false) ∨ s.bytes = frames.flatMap Frame.octets →
        pieces = (cut established.header.chunkSize.toNat source.bytes).take count) := by
  let closed := established.closed options.cancelled source
  have hsealed (never : Checkpoint → Bool) (taken : Nat) (hnever : ∀ c, never c = false) :
      VerifiesFrom established.context established.header.chunkSize.toNat never 0 taken
        (closed.map Frame.narrow)
        ((cut established.header.chunkSize.toNat source.bytes).take closed.length) := by
    have hclosed : closed.map Frame.narrow
        = ((established.chunks source.bytes).take closed.length).map Frame.narrow :=
      congrArg _ (List.prefix_iff_eq_take.1 (closedAll_prefix_closeChunks hvalid.pos))
    have hnumbers : 0 + closed.length ≤ lastIndex + 1 :=
      (Nat.zero_add _).trans_le (fresh_closedAll ..).length_le
    have hceiling : established.header.chunkSize.toNat + 16 ≤ LengthPrefix.maxLength :=
      (Nat.add_le_add_right (hvalid.le_max.trans config.maxChunkSize_le) 16).trans (by decide)
    rw [hclosed]
    exact verifiesFrom_closeChunks hnever (fun p => length_le_of_mem_cut hvalid.pos) hceiling
      hnumbers taken
  have hunits : StandWhole [] ((closed.map Frame.narrow).map Frame.octets) s.bytes count := by
    rw [← hbytes] at hstand
    rw [List.map_map]
    exact hstand.behind_opening
  have hfront : s.bytes <+: (closed.map Frame.narrow).flatMap Frame.octets := by
    have hwritten := Established.written_prefix_of_encryptUnder hunder
    rw [← hbytes] at hwritten
    rw [flatMap_octets_narrow]
    exact (List.prefix_append_right_inj _).1 hwritten
  have hpieces := hverified.of_standWhole hsealed hunits (by rwa [List.length_map]) hfront
  rwa [List.take_take, Nat.min_eq_left hle] at hpieces

/-- Whoever finds the key of a stream counts, in what an encryption has written, what that has
    counted: the first of it if the decryption is cancelled or its sink fails, and otherwise all. -/
theorem counted_decryptFor (hvalid : established.header.Valid config)
    (hkey : recoverKey config key id established.header = .ok established.key)
    (hunder : encryptUnder config established source sink options = .ok report)
    (hbytes : input.bytes = report.written) (sink' : Sink) (options' : Options) :
    let report' := decryptFor config key id input sink' options'
    report'.snapshots.map Snapshot.counted <+: report.snapshots.map Snapshot.counted
      ∧ ((∃ summary, report'.outcome = .ok summary)
          ∨ (∀ c, options'.cancelled c = false) ∧ (options'.withhold = true ∨ sink'.limit = none) →
        report'.snapshots.map Snapshot.counted = report.snapshots.map Snapshot.counted) := by
  obtain ⟨count, hle, hcounts, hstand⟩ := counts_of_encryptUnder hvalid.pos hunder
  have hwritten := Established.written_prefix_of_encryptUnder hunder
  intro report'
  by_cases hopening : established.header.opening <+: report.written
  · obtain ⟨rest, hrest⟩ := hopening
    obtain ⟨s, hopen, rfl, -⟩ := exists_openHeader hvalid hkey (hbytes.trans hrest.symm)
    obtain ⟨frames, pieces, count', hverified, hcounts', hend, hall, -⟩ :=
      counts_of_openHeader hopen sink' options'
    obtain ⟨hfirst, hequal⟩ := Verified.of_encryptUnder hvalid hunder hle hstand hrest hverified
    rw [hcounts.snapshots, hcounts'.snapshots]
    refine ⟨prefix_counted_progress ((List.take_prefix _ _).trans hfirst) _ _, ?_⟩
    rintro (⟨summary, hok⟩ | ⟨hcancelled, hdelivered⟩)
    · rw [(hcounts'.summary summary hok).1, List.take_length, hequal (Or.inr (hend summary hok))]
      exact counted_progress_eq ..
    · rw [hall hdelivered, List.take_length, hequal (Or.inl hcancelled)]
      exact counted_progress_eq ..
  · -- Where the header is cut, nothing was counted behind it, and nothing is read.
    have hcut : input.bytes <+: established.header.opening := by
      rw [hbytes]
      exact (List.prefix_or_prefix_of_prefix hwritten (List.prefix_append _ _)).resolve_right
        hopening
    obtain ⟨e, hopen⟩ := openHeader_of_cut key id hvalid hcut (by rwa [hbytes])
    have hnone : count = 0 := by
      by_contra hpos
      have hfront := (hstand 0 (by rw [List.length_map]; omega)).2 (Nat.pos_of_ne_zero hpos)
      exact hopening ((List.prefix_append _ _).trans hfront)
    have hreport : report.snapshots = [] := by
      rw [hcounts.snapshots, hnone]
      rfl
    have hreport' : report'.snapshots = [] := by
      simp only [report', decryptFor, hopen]
      rfl
    rw [hreport, hreport']
    exact ⟨List.prefix_refl _, fun _ => rfl⟩

end Decryption

/-! ## Everything reported -/

/-- What has got into a channel of the snapshots of a stream, if nothing was in it before and its
    receiver does what `receiver` says. -/
structure Channel.Gets (c : Channel) (capacity : Nat) (receiver : Receiver)
    (snapshots : List Snapshot) : Prop where
  in_order : c.delivered.Sublist snapshots
  undrained : (∀ k, .receive ∉ receiver k) → c.delivered <+: snapshots
  idle : (∀ k, receiver k = []) →
    c.held = snapshots.take capacity ∧ c.received = [] ∧ c.held = queued capacity snapshots
  room : (∀ k, .close ∉ receiver k) → snapshots.length ≤ capacity → c.delivered = snapshots

theorem Channel.gets_behind (capacity : Nat) (receiver : Receiver) (snapshots : List Snapshot) :
    ((fresh capacity).behind receiver snapshots).Gets capacity receiver snapshots where
  in_order := by
    obtain ⟨sent, hsent, hdelivered⟩ := exists_delivered_behind receiver (fresh capacity) snapshots
    rw [hdelivered]
    exact hsent
  undrained := by
    intro hreceive
    obtain ⟨sent, hsent, hdelivered⟩ :=
      exists_delivered_undrained hreceive (fresh capacity) snapshots
    rw [hdelivered]
    exact hsent
  idle := by
    intro hidle
    obtain rfl : receiver = fun _ => [] := funext hidle
    rw [behind_idle rfl, queued_eq_take]
    exact ⟨rfl, rfl, rfl⟩
  room := by
    intro hclose hroom
    exact delivered_behind_of_room (c := fresh capacity) hclose rfl (by simpa [fresh] using hroom)

/-- **Reports of progress are exact and passive.** Take any encryption that comes to an end, however
    the caller, the source and the sink disturb it. It has written and reported nothing, or its
    snapshots are those of the chunks of the payload that stand whole in what it has written, each
    with its number and the plaintext octets up to it; if it ends well these are all chunks, and the
    last snapshot has counted what the summary says. Who decrypts what it has written reports the
    same numbers and octets, or the first of them if the decryption is cancelled or its sink fails.
    Likewise any decryption reports the chunks that it verifies, up to the first that its sink does
    not take whole. A channel, however full, and whatever becomes of it, changes nothing in what is
    drawn, in what is written or in how a stream ends. It gets the snapshots in their order: all, if
    there is room for them and it is not closed, and the first if nobody takes any out. -/
theorem progress_exact (config : Config) :
    (∀ mode recipients source sink options tape report tape',
      encrypt config mode recipients source sink options tape = some (report, tape') →
        (∃ e, report = .failed e)
        ∨ ∃ established count,
          (establish config mode recipients options.chunkSize).run tape
            = some (.ok established, tape')
          ∧ report.Counts options.total (cut established.header.chunkSize.toNat source.bytes) count
          ∧ StandWhole established.header.opening
            ((established.chunks source.bytes).map Chunk.octets) report.written count
          ∧ ∀ r ∈ recipients, ∀ key : PrivateKey, key.publicKey.Form r.publicKey →
            ∀ id, Identifies r id mode → ∀ (input : Source) (sink' : Sink) (options' : Options),
              input.bytes = report.written →
              let report' := decrypt config key.octets.bytes id input sink' options'
              report'.snapshots.map Snapshot.counted <+: report.snapshots.map Snapshot.counted
              ∧ ((∃ summary, report'.outcome = .ok summary)
                  ∨ (∀ c, options'.cancelled c = false)
                    ∧ (options'.withhold = true ∨ sink'.limit = none) →
                report'.snapshots.map Snapshot.counted
                  = report.snapshots.map Snapshot.counted))
    ∧ (∀ privateKey id input sink options,
      (∃ e, decrypt config privateKey id input sink options = .failed e)
      ∨ ∃ key opened frames pieces count, PrivateKey.ofBytes privateKey = .ok key
        ∧ openHeader config key id input = .ok opened
        ∧ Verified opened.context opened.header.chunkSize.toNat options.cancelled opened.source
          frames pieces
        ∧ (decrypt config privateKey id input sink options).Counts options.total pieces count
        ∧ (options.withhold = true ∨ sink.limit = none → count = pieces.length)
        ∧ (options.withhold = false →
          StandWhole [] pieces (decrypt config privateKey id input sink options).written count))
    ∧ (∀ channel receiver,
      (∀ mode recipients source sink options,
        encryptReporting config mode recipients source sink options channel receiver
          = (fun report => report.reportedTo channel receiver)
            <$> encrypt config mode recipients source sink options)
      ∧ ∀ privateKey id input sink options,
        decryptReporting config privateKey id input sink options channel receiver
          = (decrypt config privateKey id input sink options).reportedTo channel receiver)
    ∧ ∀ (report : Report) (capacity : Nat) (receiver : Receiver),
      ∃ c, (report.reportedTo (some (.fresh capacity)) receiver).channel = some c
        ∧ c.Gets capacity receiver report.snapshots := by
  refine ⟨?_, ?_, ?_, ?_⟩
  · intro mode recipients source sink options tape report tape' hrun
    rcases encrypt_cases hrun with hfailed | ⟨established, hestablish, hunder⟩
    · exact Or.inl hfailed
    have hopens := opensFor_of_establish hestablish
    have hpos := hopens.valid.pos
    obtain ⟨count, hle, hcounts, hstand⟩ := counts_of_encryptUnder hpos hunder
    refine Or.inr ⟨established, count, hestablish, hcounts,
      standWhole_chunks hpos hunder hle hstand, ?_⟩
    intro r hr key hkey id hid input sink' options' hbytes
    rw [decrypt_of_ofBytes (PrivateKey.ofBytes_octets key)]
    exact counted_decryptFor hopens.valid (hopens.recoverKey r hr key hkey id hid) hunder hbytes
      sink' options'
  · intro privateKey id input sink options
    cases hkey : PrivateKey.ofBytes privateKey with
    | error e => exact Or.inl ⟨e, by rw [decrypt, hkey]⟩
    | ok key =>
      rw [decrypt_of_ofBytes hkey]
      cases hopen : openHeader config key id input with
      | error e => exact Or.inl ⟨e, by rw [decryptFor, hopen]⟩
      | ok opened =>
        obtain ⟨frames, pieces, count, hverified, hcounts, -, hall, hstand⟩ :=
          counts_of_openHeader hopen sink options
        exact Or.inr ⟨key, opened, frames, pieces, count, rfl, hopen, hverified, hcounts, hall,
          hstand⟩
  · intro channel receiver
    exact ⟨fun _ _ _ _ _ => encryptReporting_eq, fun _ _ _ _ _ => decryptReporting_eq⟩
  · intro report capacity receiver
    exact ⟨_, rfl, Channel.gets_behind capacity receiver report.snapshots⟩

/-- A payload of a full and a short chunk, reported into a channel with room for one snapshot. -/
theorem progress_exact_two_chunks :
    let key : PrivateKey := ⟨2, by decide, by decide⟩
    let recipients : List Recipient := [⟨[], key.publicKey.compressed.bytes⟩]
    let source : Source := .ofBytes [1, 2, 3]
    let options : Options := { Options.none with chunkSize := some 2, total := some 3 }
    let tape : Tape := List.replicate 31 0 ++ 1 :: List.replicate 16 0
    let first : Snapshot := ⟨2, some 3, 1⟩
    let last : Snapshot := ⟨3, some 3, 2⟩
    ∃ report tape' summary,
      encrypt .standard .single recipients source .unlimited options tape = some (report, tape')
        ∧ report.outcome = .ok summary ∧ summary.chunks = 2 ∧ summary.plaintextBytes = 3
        ∧ report.snapshots = [first, last]
        ∧ (decrypt .standard key.octets.bytes none (.ofBytes report.written) .unlimited
          .none).snapshots.map Snapshot.counted = [first.counted, last.counted]
        ∧ ∃ reported c,
          encryptReporting .standard .single recipients source .unlimited options
              (some (.fresh 1)) (fun _ => []) tape = some (reported, tape')
            ∧ reported.written = report.written ∧ reported.outcome = report.outcome
            ∧ reported.channel = some c ∧ c.held = [first] := by
  intro key recipients source options tape first last
  have hdraw : Draw.privateKey tape = some (⟨1, by decide, by decide⟩, List.replicate 16 0) := by
    decide +kernel
  have hform : ∀ r ∈ recipients, key.publicKey.Form r.publicKey := by
    intro r hr
    obtain rfl := List.mem_singleton.1 hr
    exact .compressed
  have haccepts : Accepts .standard .single recipients options.chunkSize :=
    ⟨rfl, readable_of_form fun r hr => ⟨key, hform r hr⟩, by decide, by decide⟩
  obtain ⟨report, summary, tape', hrun, hok⟩ := haccepts.exists_encrypt (fun _ => rfl)
    (rfl : source.ending = .finished) (by decide) hdraw (by decide)
  obtain ⟨hencrypt, -, hpassive, hchannel⟩ := progress_exact .standard
  rcases hencrypt _ _ _ _ _ _ _ _ hrun with ⟨e, rfl⟩
    | ⟨established, count, hestablish, hcounts, -, hread⟩
  · cases hok
  have hsize : established.header.chunkSize.toNat = 2 := (chunkSize_of_establish hestablish).2
  rw [hsize] at hcounts
  obtain ⟨hcount, hchunks, hbytes, -⟩ := hcounts.summary summary hok
  have hsnapshots : report.snapshots = [first, last] := by
    rw [hcounts.snapshots, hcount]
    decide
  obtain ⟨c, hc, hgets⟩ := hchannel report 1 fun _ => []
  refine ⟨report, tape', summary, hrun, hok, hchunks, hbytes, hsnapshots, ?_,
    report.reportedTo (some (.fresh 1)) fun _ => [], c, ?_, rfl, rfl, hc, ?_⟩
  · have hmem := List.mem_singleton_self (⟨[], key.publicKey.compressed.bytes⟩ : Recipient)
    have hboth := (hread _ hmem key (hform _ hmem) none trivial (.ofBytes report.written)
      .unlimited .none (Source.bytes_ofBytes _)).2 (Or.inr ⟨fun _ => rfl, Or.inr rfl⟩)
    rw [hboth, hsnapshots]
    rfl
  · rw [(hpassive (some (.fresh 1)) fun _ => []).1]
    exact Draw.map_eq_some.2 ⟨report, hrun, rfl⟩
  · rw [(hgets.idle fun _ => rfl).1, hsnapshots]
    rfl

end SealedEnvelope.Stream
