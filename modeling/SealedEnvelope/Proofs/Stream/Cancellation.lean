import SealedEnvelope.Proofs.Stream.Arguments
import SealedEnvelope.Proofs.Stream.Verified

set_option autoImplicit false

/-! # Cancelled streams

The caller is asked before every chunk whether to go on. An encryption that is told to stop there
has written the header and the chunks before it as the undisturbed encryption does, and a decryption
what the chunks before it open to; a caller who would only stop behind the last chunk makes no
difference (`cancelled_between_units`). -/

namespace SealedEnvelope.Stream

variable {config : Config} {n index taken fuel k : Nat} {cancelled : Checkpoint → Bool}
  {stopped stopped' : Nat → Bool} {source s : Source} {ctx : Context} {pieces : List Bytes}
  {frames : List Frame}

/-- The caller lets a stream pass its first `k` checkpoints. -/
def LetsPass (cancelled : Checkpoint → Bool) (checkpoint : Nat → Checkpoint) (k : Nat) : Prop :=
  ∀ j < k, cancelled (checkpoint j) = false

/-! ## Where encryption stops -/

/-- Callers who agree before every chunk that gets a number have the same encryption. -/
theorem closePieces_congr
    (h : ∀ k < pieces.length, index + k ≤ lastIndex → stopped' (index + k) = stopped (index + k))
    (hindex : index ≤ lastIndex) :
    closePieces ctx stopped' index pieces = closePieces ctx stopped index pieces := by
  induction pieces generalizing index with
  | nil => rfl
  | cons piece rest ih =>
    have hfirst : stopped' index = stopped index := h 0 (Nat.zero_lt_succ _) hindex
    rw [closePieces, closePieces, hfirst]
    by_cases hnumber : index < lastIndex
    · have hlater : closePieces ctx stopped' (index + 1) rest
          = closePieces ctx stopped (index + 1) rest := by
        refine ih ?_ hnumber
        intro k hk hle
        rw [Nat.add_right_comm] at hle ⊢
        exact h (k + 1) (Nat.succ_lt_succ hk) hle
      rw [hlater]
    · simp only [if_neg hnumber]

/-- Stopped before a chunk, encryption has written the chunks before it. -/
theorem closePieces_of_stopped (hk : k < pieces.length) (hnumber : index + k ≤ lastIndex)
    (hbefore : ∀ j < k, stopped (index + j) = false) (hat : stopped (index + k) = true) :
    closePieces ctx stopped index pieces
      = ⟨((ctx.closeChunks index pieces).take k).map Chunk.portion, .error .cancelled⟩ := by
  -- Induction on the pieces: it is stopped before the first, or that is written.
  induction pieces generalizing index k with
  | nil => exact absurd hk (Nat.not_lt_zero _)
  | cons piece rest ih =>
    rw [closePieces]
    cases k with
    | zero =>
      rw [if_pos (show stopped index = true from hat)]
      rfl
    | succ k =>
      have hpass : stopped index = false := hbefore 0 (Nat.zero_lt_succ _)
      have hrest : rest.isEmpty = false := by
        rw [List.isEmpty_eq_false_iff, ← List.length_pos_iff]
        exact Nat.zero_lt_of_lt (Nat.lt_of_succ_lt_succ hk)
      have hlater : closePieces ctx stopped (index + 1) rest
          = ⟨((ctx.closeChunks (index + 1) rest).take k).map Chunk.portion, .error .cancelled⟩ := by
        refine ih (Nat.lt_of_succ_lt_succ hk) (by omega) ?_ (by rwa [Nat.add_right_comm])
        intro j hj
        rw [Nat.add_right_comm]
        exact hbefore (j + 1) (Nat.succ_lt_succ hj)
      rw [hpass, if_neg (by decide)]
      simp only [hrest, Bool.false_eq_true, if_false]
      rw [if_pos (by omega), hlater, Context.closeChunks, hrest]
      rfl

/-! ## Encryption -/

/-- The options of a caller who never cancels. -/
def Options.undisturbed (options : Options) : Options :=
  { options with cancelled := fun _ => false }

namespace Established

variable (e : Established) {payload : Bytes}

/-- The chunks that an established stream has for a payload, as far as there are numbers for them,
    each as it is written. -/
def units (payload : Bytes) : List Bytes :=
  ((e.chunks payload).take (lastIndex + 1)).map Chunk.octets

/-- The encryption of a payload, unless it is stopped before a chunk. -/
def run (stopped : Nat → Bool) (payload : Bytes) : Run :=
  closePieces e.context stopped 0 (cut e.header.chunkSize.toNat payload)

/-- What is reported of a run that is written behind the header to a sink that takes everything. -/
def report (run : Run) (total : Option Nat) : Report :=
  Result.report ⟨e.header.opening ++ (run.portions.map (·.octets)).flatten, run.portions,
    run.outcome⟩ total e.header.kind

theorem lt_length_units_iff :
    k < (e.units payload).length ↔ k < (e.chunks payload).length ∧ k ≤ lastIndex := by
  rw [units, List.length_map, List.length_take]
  omega

/-- Chunks in front of the numbers' end are units. -/
theorem flatten_take_chunks (hk : k ≤ lastIndex + 1) :
    ((((e.chunks payload).take k).map Chunk.portion).map (·.octets)).flatten
      = ((e.units payload).take k).flatten := by
  rw [flatten_portion, units, ← List.map_take, List.take_take, Nat.min_eq_left hk,
    List.flatMap_def]

theorem run_of_stopped (hk : k < (e.units payload).length) (hbefore : ∀ j < k, stopped j = false)
    (hat : stopped k = true) :
    e.run stopped payload
      = ⟨((e.chunks payload).take k).map Chunk.portion, .error .cancelled⟩ := by
  obtain ⟨hchunk, hnumber⟩ := e.lt_length_units_iff.1 hk
  rw [e.length_chunks] at hchunk
  refine closePieces_of_stopped hchunk (by rwa [Nat.zero_add]) ?_ (by rwa [Nat.zero_add])
  simpa only [Nat.zero_add] using hbefore

theorem run_of_passed (hk : (e.units payload).length ≤ k) (hpass : ∀ j < k, stopped j = false) :
    e.run stopped payload = e.run (fun _ => false) payload := by
  refine closePieces_congr ?_ (Nat.zero_le _)
  intro j hj hnumber
  rw [Nat.zero_add] at hnumber ⊢
  rw [← e.length_chunks] at hj
  exact hpass j ((e.lt_length_units_iff.2 ⟨hj, hnumber⟩).trans_le hk)

/-- Undisturbed, all units are written. -/
theorem flatten_run (payload : Bytes) :
    ((e.run (fun _ => false) payload).portions.map (·.octets)).flatten
      = (e.units payload).flatten := by
  rw [run, closePieces_undisturbed _ (Nat.zero_le _) (cut_ne_nil _ _), Nat.sub_zero, ← chunks,
    e.flatten_take_chunks (Nat.le_refl _), List.take_of_length_le]
  rw [units, List.length_map]
  exact List.length_take_le _ _

end Established

section Encryption

variable {mode : Mode} {recipients : List Recipient} {options : Options} {tape rest : Tape}
  {established : Established}

/-- What becomes of an established stream that is written to a sink that takes everything. -/
theorem encrypt_unlimited
    (hestablish : (establish config mode recipients options.chunkSize).run tape
      = some (.ok established, rest)) (hending : source.ending = .finished) :
    encrypt config mode recipients source .unlimited options tape
      = some (established.report (established.run (fun i => options.cancelled
        (checkpointBefore established.header.chunkSize.toNat source i)) source.bytes)
          options.total, rest) := by
  have hvalid := valid_of_establish hestablish
  refine encrypt_of_encryptUnder hestablish (encryptUnder_eq_ok_iff.2 ⟨hvalid.table, ?_⟩)
  rw [closeAll_eq_closePieces _ hvalid.pos _ hending, Run.deliver_unlimited]
  rfl

end Encryption

/-! ## Decryption -/

/-- A run comes to a checkpoint before every frame that it verifies. -/
theorem VerifiesFrom.comesTo (h : VerifiesFrom ctx n cancelled index taken frames pieces)
    (hindex : index ≤ lastIndex) (hk : k < frames.length) : ComesTo index frames k := by
  induction h generalizing k with
  | nil => exact absurd hk (Nat.not_lt_zero _)
  | @cons index taken f piece frames pieces _ hmore _ ih =>
    cases k with
    | zero => exact .zero hindex _
    | succ k =>
      have hlater := Nat.lt_of_succ_lt_succ hk
      obtain ⟨hfinal, hnumber⟩ := hmore (List.length_pos_iff.1 (Nat.zero_lt_of_lt hlater))
      exact (ih hnumber hlater).succ hfinal

theorem ComesTo.of_succ {f : Frame} (h : ComesTo index (f :: frames) (k + 1)) :
    f.chunk.isFinal = false ∧ index < lastIndex ∧ ComesTo (index + 1) frames k := by
  have hnumber := h.number
  have hfinal := h.not_final
  rw [List.take_succ_cons, List.forall_mem_cons] at hfinal
  refine ⟨hfinal.1, by omega, Nat.le_of_succ_le_succ h.le, by omega, hfinal.2⟩

/-- Cancelled behind the first `k` of the frames that it would verify, a run hands out what these
    open to. -/
theorem VerifiesFrom.openFrom_of_cancelled
    (h : VerifiesFrom ctx n (fun _ => false) index s.taken frames pieces)
    (hfront : frames.flatMap Frame.octets <+: s.bytes) (hcomes : ComesTo index frames k)
    (hpass : LetsPass cancelled (checkpointBehind index s.taken frames) k)
    (hcancelled : cancelled (checkpointBehind index s.taken frames k) = true)
    (hfuel : k < fuel) :
    openFrom ctx n cancelled fuel index s
      = ⟨(pieces.take k).map openedPortion, .error .cancelled⟩ := by
  -- Induction on the frames: it is cancelled before the first, or that is read and passed over.
  generalize htaken : s.taken = taken at h hpass hcancelled
  induction h generalizing s fuel k with
  | @nil index taken =>
    obtain ⟨fuel, rfl⟩ := Nat.exists_eq_add_of_le' (Nat.zero_lt_of_lt hfuel)
    subst htaken
    obtain rfl := Nat.le_zero.1 hcomes.le
    rw [checkpointBehind_zero] at hcancelled
    refine openFrom_of_error ?_
    rw [openNext_apply, if_pos hcancelled]
  | @cons index taken f piece frames pieces hopens _ _ ih =>
    obtain ⟨fuel, rfl⟩ := Nat.exists_eq_add_of_le' (Nat.zero_lt_of_lt hfuel)
    subst htaken
    cases k with
    | zero =>
      rw [checkpointBehind_zero] at hcancelled
      refine openFrom_of_error ?_
      rw [openNext_apply, if_pos hcancelled]
    | succ k =>
      obtain ⟨hfinal, hnumber, hcomes'⟩ := hcomes.of_succ
      obtain ⟨rest, hbytes⟩ := hfront
      rw [List.flatMap_cons, List.append_assoc] at hbytes
      have hopens' : f.OpensAt ctx n cancelled index s.taken piece :=
        ⟨hpass 0 (Nat.zero_lt_succ _), hopens.fits, hopens.open?_eq⟩
      obtain ⟨s', hnext, hleaves⟩ := hopens'.exists_openNext hbytes.symm
      have hrest : frames.flatMap Frame.octets <+: s'.bytes :=
        ⟨rest, (hleaves.bytes_eq hbytes.symm).symm⟩
      rw [checkpointBehind_succ] at hcancelled
      have hpass' : LetsPass cancelled
          (checkpointBehind (index + 1) (s.taken + f.octets.length) frames) k := by
        intro j hj
        rw [← checkpointBehind_succ]
        exact hpass (j + 1) (Nat.succ_lt_succ hj)
      have hlater :=
        ih hrest hcomes' (Nat.lt_of_succ_lt_succ hfuel) hleaves.taken hpass' hcancelled
      rw [openFrom_of_next hnext hfinal, if_pos hnumber, hlater]
      rfl

/-- A run that is cancelled at a checkpoint it comes to hands out what was verified until there; one
    that is cancelled at none is undisturbed. -/
theorem Opened.exists_verified_undisturbed (opened : Opened) (cancelled : Checkpoint → Bool) :
    ∃ frames pieces,
      Verified opened.context opened.header.chunkSize.toNat (fun _ => false) opened.source frames
        pieces
      ∧ ∀ k, LetsPass cancelled (checkpointBehind 0 opened.source.taken frames) k →
        (ComesTo 0 frames k →
          cancelled (checkpointBehind 0 opened.source.taken frames k) = true →
          opened.run cancelled = ⟨(pieces.take k).map openedPortion, .error .cancelled⟩)
        ∧ (¬ComesTo 0 frames k → opened.run cancelled = opened.run (fun _ => false)) := by
  obtain ⟨frames, pieces, outcome, hverified, hrun⟩ := opened.exists_verified (fun _ => false)
  refine ⟨frames, pieces, hverified, ?_⟩
  intro k hpass
  constructor
  · intro hcomes hcancelled
    have hlength : frames.length ≤ opened.source.bytes.length :=
      (length_le_flatMap_octets frames).trans hverified.front.length_le
    exact hverified.verifies.openFrom_of_cancelled hverified.front hcomes hpass hcancelled
      (Nat.lt_succ_of_le (hcomes.le.trans hlength))
  · intro hcomes
    rw [hrun (fun _ => false) fun _ _ => rfl]
    refine hrun cancelled fun j hj => hpass j ?_
    by_contra hlt
    exact hcomes (hj.of_le (Nat.le_of_not_lt hlt))

/-! ## Both -/

/-- **Cancelling leaves whole units.** Arguments that encryption does not take leave nothing
    written. With others, let the undisturbed encryption write a header and units behind it. Whoever
    first cancels before the `k`th of these gets the header and the `k` units before; whoever lets
    all of them pass gets what the undisturbed encryption writes. Likewise decryption that is first
    cancelled at a checkpoint behind `k` verified chunks has written what these open to, unless that
    is withheld, and is undisturbed if it comes to no such checkpoint. -/
theorem cancelled_between_units (config : Config) (mode : Mode) (recipients : List Recipient)
    (source : Source) (options : Options) (tape : Tape) (key : PrivateKey) (id : Option Bytes)
    (input : Source) :
    (¬Accepts config mode recipients options.chunkSize →
      ∃ e, (∀ tape report rest,
          encrypt config mode recipients source .unlimited options tape = some (report, rest) →
          report = .failed e)
        ∧ ∀ tape ephemeral rest, Draw.privateKey tape = some (ephemeral, rest) →
          drawn recipients.length mode ≤ rest.length →
          ∃ tape', encrypt config mode recipients source .unlimited options tape
            = some (.failed e, tape'))
    ∧ (∀ {ephemeral rest}, Accepts config mode recipients options.chunkSize →
      Draw.privateKey tape = some (ephemeral, rest) →
      drawn recipients.length mode ≤ rest.length → source.ending = .finished →
      ∃ established tape' undisturbed,
        (establish config mode recipients options.chunkSize).run tape
          = some (.ok established, tape')
        ∧ encrypt config mode recipients source .unlimited options.undisturbed tape
          = some (undisturbed, tape')
        ∧ undisturbed.written
          = established.header.opening ++ (established.units source.bytes).flatten
        ∧ ∀ k, LetsPass options.cancelled
            (checkpointBefore established.header.chunkSize.toNat source) k →
          (k < (established.units source.bytes).length →
            options.cancelled (checkpointBefore established.header.chunkSize.toNat source k)
              = true →
            ∃ report, encrypt config mode recipients source .unlimited options tape
                = some (report, tape')
              ∧ report.outcome = .error .cancelled
              ∧ report.written = established.header.opening
                ++ ((established.units source.bytes).take k).flatten)
          ∧ ((established.units source.bytes).length ≤ k →
            encrypt config mode recipients source .unlimited options tape
              = some (undisturbed, tape')))
    ∧ (∀ e, openHeader config key id input = .error e →
      decryptFor config key id input .unlimited options = .failed e)
    ∧ ∀ opened, openHeader config key id input = .ok opened →
      ∃ frames pieces,
        Verified opened.context opened.header.chunkSize.toNat (fun _ => false) opened.source frames
          pieces
        ∧ ∀ k, LetsPass options.cancelled (checkpointBehind 0 opened.source.taken frames) k →
          (ComesTo 0 frames k →
            options.cancelled (checkpointBehind 0 opened.source.taken frames k) = true →
            (decryptFor config key id input .unlimited options).outcome = .error .cancelled
              ∧ (decryptFor config key id input .unlimited options).written
                = if options.withhold then [] else (pieces.take k).flatten)
          ∧ (¬ComesTo 0 frames k →
            decryptFor config key id input .unlimited options
              = decryptFor config key id input .unlimited options.undisturbed) := by
  refine ⟨fun h => failed_of_not_accepts h source .unlimited, ?_, ?_, ?_⟩
  · intro ephemeral rest haccepts hdraw hrest hending
    obtain ⟨established, tape', hestablish⟩ := haccepts.exists_establish hdraw hrest
    have hundisturbed : encrypt config mode recipients source .unlimited options.undisturbed tape
        = some (established.report (established.run (fun _ => false) source.bytes) options.total,
          tape') := encrypt_unlimited hestablish hending
    have hwritten : (established.report (established.run (fun _ => false) source.bytes)
        options.total).written
          = established.header.opening ++ (established.units source.bytes).flatten :=
      congrArg (established.header.opening ++ ·) (established.flatten_run source.bytes)
    refine ⟨established, tape', _, hestablish, hundisturbed, hwritten, ?_⟩
    intro k hpass
    constructor
    · intro hk hcancelled
      have hrun := encrypt_unlimited hestablish hending
      rw [established.run_of_stopped hk hpass hcancelled] at hrun
      refine ⟨_, hrun, rfl, congrArg (established.header.opening ++ ·)
        (established.flatten_take_chunks ?_)⟩
      exact Nat.le_succ_of_le (established.lt_length_units_iff.1 hk).2
    · intro hk
      rw [encrypt_unlimited hestablish hending, established.run_of_passed hk hpass]
  · intro e hopen
    rw [decryptFor, hopen]
  · intro opened hopen
    obtain ⟨frames, pieces, hverified, hrun⟩ := opened.exists_verified_undisturbed options.cancelled
    refine ⟨frames, pieces, hverified, ?_⟩
    intro k hpass
    obtain ⟨hstopped, hpassed⟩ := hrun k hpass
    constructor
    · intro hcomes hcancelled
      rw [decryptFor_of_openHeader hopen, hstopped hcomes hcancelled,
        Run.release_unlimited_of_error _ rfl, flatten_openedPortion]
      exact ⟨rfl, rfl⟩
    · intro hcomes
      rw [decryptFor_of_openHeader hopen, decryptFor_of_openHeader hopen, hpassed hcomes]
      rfl

/-- The caller cancels before the second of two chunks. -/
theorem cancelled_between_units_two_chunks :
    let key : PrivateKey := ⟨2, by decide, by decide⟩
    let options : Options := ⟨none, fun c => c.chunk = 1, some 2, false⟩
    let tape : Tape := List.replicate 31 0 ++ 1 :: List.replicate 16 0
    (∃ (e : Established) (report : Report) (tape' : Tape),
      encrypt .standard .single [⟨[], key.publicKey.compressed.bytes⟩] (.ofBytes [1, 2, 3])
          .unlimited options tape = some (report, tape')
        ∧ report.outcome = .error .cancelled
        ∧ report.written = e.header.opening ++ ((e.units [1, 2, 3]).take 1).flatten)
    ∧ ∃ input : Source,
      (decryptFor .standard key none input .unlimited options).outcome = .error .cancelled
        ∧ (decryptFor .standard key none input .unlimited options).written = [1, 2] := by
  intro key options tape
  let recipients : List Recipient := [⟨[], key.publicKey.compressed.bytes⟩]
  let written : Established := .forOne key ⟨1, by decide, by decide⟩ (.zero 16) 2
  let layout := Layout.narrow written.header (written.chunks [1, 2, 3])
  obtain ⟨-, hencrypt, -, hdecrypt⟩ := cancelled_between_units .standard .single recipients
    (.ofBytes [1, 2, 3]) options tape key none (.ofBytes layout.octets)
  have hpass {checkpoint : Nat → Checkpoint} (h : (checkpoint 0).chunk = 0) :
      LetsPass options.cancelled checkpoint 1 := by
    intro j hj
    obtain rfl := Nat.lt_one_iff.1 hj
    exact decide_eq_false (by rw [h]; decide)
  constructor
  · have hforms : ∀ r ∈ recipients, ∃ key : PrivateKey, key.publicKey.Form r.publicKey := by
      intro r hr
      rw [List.mem_singleton.1 hr]
      exact ⟨key, .compressed⟩
    have haccepts : Accepts .standard .single recipients options.chunkSize :=
      ⟨rfl, readable_of_form hforms, by decide, by decide⟩
    have hdraw : Draw.privateKey tape = some (⟨1, by decide, by decide⟩, List.replicate 16 0) := by
      decide +kernel
    obtain ⟨e, tape', _, hestablish, -, -, hstops⟩ := hencrypt haccepts hdraw (by decide) rfl
    have hlength : 1 < (e.units [1, 2, 3]).length := by
      rw [e.lt_length_units_iff, e.length_chunks, (chunkSize_of_establish hestablish).2]
      decide
    obtain ⟨report, hrun, hreport⟩ := (hstops 1 (hpass rfl)).1 hlength rfl
    exact ⟨e, report, tape', hrun, hreport⟩
  · have hopens : layout.Opens .standard key none Options.none.cancelled 0 written.key
        (cut 2 [1, 2, 3]) :=
      Established.opens_forOne _ _ _ _ none _ (fun _ => rfl) (by decide) (by decide) (by decide) 0
    obtain ⟨opened, hopen, -, hsource, -, hframes⟩ :=
      hopens.exists_openHeader (Source.bytes_ofBytes _)
    obtain ⟨frames, pieces, hverified, hstops⟩ := hdecrypt opened hopen
    have hfront : layout.frames.flatMap Frame.octets <+: opened.source.bytes := by
      rw [hsource]
    have hfirst : cut 2 [1, 2, 3] <+: pieces := hverified.longest hframes.verifiesFrom hfront
    have hlength : 1 < frames.length := by
      rw [hverified.verifies.length_eq]
      exact hfirst.length_le
    have hcomes : ComesTo 0 frames 1 := hverified.verifies.comesTo (Nat.zero_le _) hlength
    obtain ⟨houtcome, hpieces⟩ := (hstops 1 (hpass rfl)).1 hcomes rfl
    refine ⟨_, houtcome, hpieces.trans ?_⟩
    obtain ⟨rest, rfl⟩ := hfirst
    rfl

end SealedEnvelope.Stream
