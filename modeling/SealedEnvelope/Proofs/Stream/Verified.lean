import Mathlib.Data.List.Infix
import SealedEnvelope.Proofs.Stream.RoundTrip

set_option autoImplicit false

/-! # What decryption verifies

Whether a run ends well or fails, it has verified some frames at the front of its source, one after
the other (`VerifiesFrom`), and hands out what they open to. These are the most that open there
(`Verified`), and a run looks at the caller's wish to cancel only at the checkpoints before and
behind them (`Opened.exists_verified`). Whether the plaintext is withheld makes no difference to any
of this: only what is written of a run that fails (`decryptFor_withheld`). -/

namespace SealedEnvelope.Stream

variable {config : Config} {key : PrivateKey} {id : Option Bytes} {input : Source}
  {n index taken fuel k : Nat} {cancelled cancelled' : Checkpoint → Bool} {s s' : Source}
  {ctx : Context} {f : Frame} {piece : Bytes} {frames frames' : List Frame}
  {pieces pieces' : List Bytes}

/-! ## Frames that open one after the other -/

/-- Frames that a run verifies from number `index` on, with `taken` octets read before them, and the
    pieces that they open to. More are verified behind a frame only if it is not marked as the last
    and there is a number behind its own. -/
inductive VerifiesFrom (ctx : Context) (n : Nat) (cancelled : Checkpoint → Bool) :
    (index taken : Nat) → List Frame → List Bytes → Prop
  | nil {index taken : Nat} : VerifiesFrom ctx n cancelled index taken [] []
  | cons {index taken : Nat} {f : Frame} {piece : Bytes} {frames : List Frame}
      {pieces : List Bytes} :
    f.OpensAt ctx n cancelled index taken piece →
    (frames ≠ [] → f.chunk.isFinal = false ∧ index < lastIndex) →
    VerifiesFrom ctx n cancelled (index + 1) (taken + f.octets.length) frames pieces →
    VerifiesFrom ctx n cancelled index taken (f :: frames) (piece :: pieces)

/-- What a run verifies of a source: frames at its front that open one after the other, and the most
    that do. -/
structure Verified (ctx : Context) (n : Nat) (cancelled : Checkpoint → Bool) (s : Source)
    (frames : List Frame) (pieces : List Bytes) : Prop where
  verifies : VerifiesFrom ctx n cancelled 0 s.taken frames pieces
  front : frames.flatMap Frame.octets <+: s.bytes
  longest : ∀ {frames' : List Frame} {pieces' : List Bytes},
    VerifiesFrom ctx n cancelled 0 s.taken frames' pieces' →
    frames'.flatMap Frame.octets <+: s.bytes → pieces' <+: pieces

namespace VerifiesFrom

theorem length_eq (h : VerifiesFrom ctx n cancelled index taken frames pieces) :
    frames.length = pieces.length := by
  induction h with
  | nil => rfl
  | cons _ _ _ ih => rw [List.length_cons, ih, List.length_cons]

/-- Frames at the front of a source that open are verified, and what they open to is handed out. -/
theorem prefix_portions (h : VerifiesFrom ctx n cancelled index s.taken frames pieces)
    (hfront : frames.flatMap Frame.octets <+: s.bytes) (hfuel : frames.length ≤ fuel) :
    pieces.map openedPortion <+: (openFrom ctx n cancelled fuel index s).portions := by
  generalize htaken : s.taken = taken at h
  induction h generalizing s fuel with
  | nil => exact List.nil_prefix
  | @cons index taken f piece frames pieces hopens hmore hverifies ih =>
    obtain ⟨fuel, rfl⟩ := Nat.exists_eq_add_of_le' (Nat.le_of_add_left_le hfuel)
    subst htaken
    obtain ⟨rest, hbytes⟩ := hfront
    rw [List.flatMap_cons, List.append_assoc] at hbytes
    obtain ⟨s', hnext, hleaves⟩ := hopens.exists_openNext hbytes.symm
    have hrest : frames.flatMap Frame.octets <+: s'.bytes :=
      ⟨rest, (hleaves.bytes_eq hbytes.symm).symm⟩
    have hlater := ih hrest (Nat.le_of_succ_le_succ hfuel) hleaves.taken
    rw [List.map_cons]
    by_cases hempty : frames = []
    · -- Whatever is behind the last of the frames comes behind its piece.
      have hlength := hverifies.length_eq
      rw [hempty] at hlength
      obtain rfl := List.length_eq_zero_iff.1 hlength.symm
      cases hfinal : f.chunk.isFinal with
      | true =>
        rw [openFrom_of_final hnext hfinal]
        exact List.prefix_append [_] _
      | false =>
        rw [openFrom_of_next hnext hfinal]
        exact List.prefix_append [_] _
    · obtain ⟨hfinal, hnumber⟩ := hmore hempty
      rw [openFrom_of_next hnext hfinal, if_pos hnumber]
      exact List.prefix_cons_inj _ |>.2 hlater

end VerifiesFrom

/-- The frames of a whole stream are verified. -/
theorem OpensFrom.verifiesFrom (h : OpensFrom ctx n cancelled index taken frames pieces) :
    VerifiesFrom ctx n cancelled index taken frames pieces := by
  induction h with
  | last hopens _ => exact .cons hopens (fun h => absurd rfl h) .nil
  | next hopens hfinal hnumber _ ih => exact .cons hopens (fun _ => ⟨hfinal, hnumber⟩) ih

/-! ## Checkpoints -/

/-- The checkpoint behind the first `k` of some frames. -/
def checkpointBehind (index taken : Nat) (frames : List Frame) (k : Nat) : Checkpoint :=
  ⟨index + k, taken + ((frames.take k).flatMap Frame.octets).length⟩

theorem checkpointBehind_zero (index taken : Nat) (frames : List Frame) :
    checkpointBehind index taken frames 0 = ⟨index, taken⟩ := rfl

theorem checkpointBehind_succ (index taken : Nat) (f : Frame) (frames : List Frame) (k : Nat) :
    checkpointBehind index taken (f :: frames) (k + 1)
      = checkpointBehind (index + 1) (taken + f.octets.length) frames k := by
  unfold checkpointBehind
  rw [List.take_succ_cons, List.flatMap_cons, List.length_append]
  congr 1 <;> omega

/-- A run that verifies `frames` comes to a checkpoint behind the first `k` of them: none of these
    is marked as the last, and there is a number for what comes next. -/
structure ComesTo (index : Nat) (frames : List Frame) (k : Nat) : Prop where
  le : k ≤ frames.length
  number : index + k ≤ lastIndex
  not_final : ∀ f ∈ frames.take k, f.chunk.isFinal = false

theorem ComesTo.zero (hindex : index ≤ lastIndex) (frames : List Frame) :
    ComesTo index frames 0 :=
  ⟨Nat.zero_le _, hindex, by simp⟩

theorem ComesTo.succ (hfinal : f.chunk.isFinal = false) (h : ComesTo (index + 1) frames k) :
    ComesTo index (f :: frames) (k + 1) := by
  refine ⟨Nat.succ_le_succ h.le, ?_, ?_⟩
  · have := h.number
    omega
  · rw [List.take_succ_cons, List.forall_mem_cons]
    exact ⟨hfinal, h.not_final⟩

/-- A run comes to all checkpoints before one that it comes to. -/
theorem ComesTo.of_le {j : Nat} (h : ComesTo index frames k) (hj : j ≤ k) :
    ComesTo index frames j := by
  refine ⟨hj.trans h.le, ?_, ?_⟩
  · have := h.number
    omega
  · intro f hf
    exact h.not_final f ((List.take_prefix_take_left hj).subset hf)

/-! ## The run -/

/-- Callers who agree at the next checkpoint have the same read. -/
theorem openNext_congr (h : cancelled' ⟨index, s.taken⟩ = cancelled ⟨index, s.taken⟩) :
    openNext ctx n cancelled' index s = openNext ctx n cancelled index s := by
  rw [openNext_apply, openNext_apply, h]

/-- A run verifies frames at the front of its source, and hands out what they open to. What becomes
    of it depends on the caller only at the checkpoints that it comes to. -/
theorem exists_verifiesFrom (ctx : Context) (n : Nat) (cancelled : Checkpoint → Bool)
    (hindex : index ≤ lastIndex) (hfuel : s.bytes.length < fuel) :
    ∃ frames pieces outcome, VerifiesFrom ctx n cancelled index s.taken frames pieces
      ∧ frames.flatMap Frame.octets <+: s.bytes
      ∧ ∀ cancelled' : Checkpoint → Bool,
        (∀ k, ComesTo index frames k → cancelled' (checkpointBehind index s.taken frames k)
          = cancelled (checkpointBehind index s.taken frames k)) →
        openFrom ctx n cancelled' fuel index s = ⟨pieces.map openedPortion, outcome⟩ := by
  -- Induction on the fuel, along the chunks that the run accepts.
  induction fuel generalizing index s with
  | zero => exact absurd hfuel (Nat.not_lt_zero _)
  | succ fuel ih =>
    cases hnext : openNext ctx n cancelled index s with
    | error e =>
      refine ⟨[], [], .error e, .nil, List.nil_prefix, ?_⟩
      intro cancelled' hagree
      have hfirst := hagree 0 (.zero hindex _)
      rw [checkpointBehind_zero] at hfirst
      rw [← openNext_congr hfirst] at hnext
      exact openFrom_of_error hnext
    | ok result =>
      obtain ⟨⟨c, piece⟩, s'⟩ := result
      obtain ⟨f, rfl, hopens, hleaves⟩ := exists_frame_of_openNext hnext
      have hread (frames : List Frame) (cancelled' : Checkpoint → Bool)
          (hagree : ∀ k, ComesTo index (f :: frames) k →
            cancelled' (checkpointBehind index s.taken (f :: frames) k)
              = cancelled (checkpointBehind index s.taken (f :: frames) k)) :
          openNext ctx n cancelled' index s = .ok ((f.chunk, piece), s') := by
        have hfirst := hagree 0 (.zero hindex _)
        rw [checkpointBehind_zero] at hfirst
        rw [openNext_congr hfirst, hnext]
      have hone : [f].flatMap Frame.octets <+: s.bytes := by
        rw [List.flatMap_singleton, hleaves.bytes]
        exact List.prefix_append _ _
      have hsingle : VerifiesFrom ctx n cancelled index s.taken [f] [piece] :=
        .cons hopens (fun h => absurd rfl h) .nil
      cases hfinal : f.chunk.isFinal with
      | true =>
        refine ⟨[f], [piece], Prod.fst <$> checkEnd s', hsingle, hone, ?_⟩
        intro cancelled' hagree
        rw [openFrom_of_final (hread [] cancelled' hagree) hfinal]
        rfl
      | false =>
        by_cases hnumber : index < lastIndex
        · have hshorter : s'.bytes.length < fuel := by
            have hpos := List.length_pos_iff.2 f.octets_ne_nil
            rw [hleaves.bytes, List.length_append] at hfuel
            omega
          obtain ⟨frames, pieces, outcome, hverifies, hfront, hrun⟩ := ih hnumber hshorter
          rw [hleaves.taken] at hverifies hrun
          refine ⟨f :: frames, piece :: pieces, outcome,
            .cons hopens (fun _ => ⟨hfinal, hnumber⟩) hverifies, ?_, ?_⟩
          · rw [List.flatMap_cons, hleaves.bytes, List.prefix_append_right_inj]
            exact hfront
          · intro cancelled' hagree
            have hlater := hrun cancelled' fun k hk => by
              have hbehind := hagree (k + 1) (hk.succ hfinal)
              rwa [checkpointBehind_succ] at hbehind
            rw [openFrom_of_next (hread frames cancelled' hagree) hfinal, if_pos hnumber, hlater]
            rfl
        · refine ⟨[f], [piece], .error (.lengthTooLong (lastIndex + 1) lastIndex), hsingle, hone,
            ?_⟩
          intro cancelled' hagree
          rw [openFrom_of_next (hread [] cancelled' hagree) hfinal, if_neg hnumber]
          rfl

/-- Portions of pieces that start one another come from pieces that do. -/
theorem prefix_of_map_openedPortion (h : pieces'.map openedPortion <+: pieces.map openedPortion) :
    pieces' <+: pieces := by
  have hoctets := h.map Portion.octets
  rw [List.map_map, List.map_map] at hoctets
  rwa [show Portion.octets ∘ openedPortion = id from rfl, List.map_id, List.map_id] at hoctets

/-- Every run of a stream whose header is read has verified what it can of the chunks and hands that
    out, and depends on the caller only at the checkpoints that it comes to. -/
theorem Opened.exists_verified (opened : Opened) (cancelled : Checkpoint → Bool) :
    ∃ frames pieces outcome,
      Verified opened.context opened.header.chunkSize.toNat cancelled opened.source frames pieces
        ∧ ∀ cancelled' : Checkpoint → Bool,
          (∀ k, ComesTo 0 frames k → cancelled' (checkpointBehind 0 opened.source.taken frames k)
            = cancelled (checkpointBehind 0 opened.source.taken frames k)) →
          opened.run cancelled' = ⟨pieces.map openedPortion, outcome⟩ := by
  obtain ⟨frames, pieces, outcome, hverifies, hfront, hrun⟩ :=
    exists_verifiesFrom opened.context opened.header.chunkSize.toNat cancelled (Nat.zero_le _)
      (Nat.lt_succ_self opened.source.bytes.length)
  refine ⟨frames, pieces, outcome, ⟨hverifies, hfront, ?_⟩, hrun⟩
  intro frames' pieces' hverifies' hfront'
  have hfuel : frames'.length ≤ opened.source.bytes.length + 1 :=
    (length_le_flatMap_octets frames').trans (hfront'.length_le.trans (Nat.le_succ _))
  have hinitial := hverifies'.prefix_portions hfront' hfuel
  rw [hrun cancelled fun _ _ => rfl] at hinitial
  exact prefix_of_map_openedPortion hinitial

/-! ## Withholding -/

/-- The pieces that decryption verifies: none where the header does not open. -/
def VerifiedPieces (config : Config) (key : PrivateKey) (id : Option Bytes)
    (cancelled : Checkpoint → Bool) (input : Source) (pieces : List Bytes) : Prop :=
  match openHeader config key id input with
  | .error _ => pieces = []
  | .ok opened =>
    ∃ frames, Verified opened.context opened.header.chunkSize.toNat cancelled opened.source frames
      pieces

/-- **Withholding changes only when plaintext is released.** Whatever is decrypted, by whomever, and
    wherever the caller cancels: withheld or not, decryption ends in the same way and reports the
    same progress. If it ends well, the same is written; if it fails, the withheld run has written
    nothing. The other has written what the chunks open to that were verified until then. -/
theorem decryptFor_withheld (config : Config) (key : PrivateKey) (id : Option Bytes)
    (input : Source) (options : Options) :
    let immediate := decryptFor config key id input .unlimited { options with withhold := false }
    let withheld := decryptFor config key id input .unlimited { options with withhold := true }
    withheld.outcome = immediate.outcome
      ∧ withheld.snapshots = immediate.snapshots
      ∧ (∀ summary, immediate.outcome = .ok summary → withheld.written = immediate.written)
      ∧ (∀ e, immediate.outcome = .error e → withheld.written = [])
      ∧ ∃ pieces, VerifiedPieces config key id options.cancelled input pieces
        ∧ immediate.written = pieces.flatten := by
  intro immediate withheld
  cases hopen : openHeader config key id input with
  | error e =>
    have hreport (withhold : Bool) :
        decryptFor config key id input .unlimited { options with withhold } = .failed e := by
      rw [decryptFor, hopen]
    have hpieces : VerifiedPieces config key id options.cancelled input [] := by
      rw [VerifiedPieces, hopen]
    unfold immediate withheld
    rw [hreport, hreport]
    exact ⟨rfl, rfl, fun _ _ => rfl, fun _ _ => rfl, [], hpieces, rfl⟩
  | ok opened =>
    obtain ⟨frames, pieces, outcome, hverified, hrun⟩ := opened.exists_verified options.cancelled
    have hrun := hrun options.cancelled fun _ _ => rfl
    have hpieces : VerifiedPieces config key id options.cancelled input pieces := by
      rw [VerifiedPieces, hopen]
      exact ⟨frames, hverified⟩
    unfold immediate withheld
    cases outcome with
    | ok _ =>
      have hreport (withhold : Bool) :
          decryptFor config key id input .unlimited { options with withhold }
            = Result.report ⟨pieces.flatten, pieces.map openedPortion, .ok ()⟩ options.total
              opened.header.kind := by
        rw [decryptFor_of_openHeader hopen, hrun, Run.release_unlimited_of_ok _ rfl,
          flatten_openedPortion]
      rw [hreport, hreport]
      refine ⟨rfl, rfl, fun _ _ => rfl, ?_, pieces, hpieces, rfl⟩
      intro e h
      cases h
    | error e =>
      have hreport (withhold : Bool) :
          decryptFor config key id input .unlimited { options with withhold }
            = Result.report ⟨if withhold then [] else pieces.flatten, pieces.map openedPortion,
              .error e⟩ options.total opened.header.kind := by
        rw [decryptFor_of_openHeader hopen, hrun, Run.release_unlimited_of_error _ rfl,
          flatten_openedPortion]
      rw [hreport, hreport]
      refine ⟨rfl, rfl, ?_, fun _ _ => rfl, pieces, hpieces, rfl⟩
      intro summary h
      cases h

/-- An octet follows a stream of two chunks. -/
theorem decryptFor_withheld_trailing_octet :
    let key : PrivateKey := ⟨2, by decide, by decide⟩
    let withheld : Options := { Options.none with withhold := true }
    ∃ input : Source,
      (decryptFor .standard key none input .unlimited .none).outcome = .error .trailingData
        ∧ (decryptFor .standard key none input .unlimited .none).written = [1, 2, 3]
        ∧ (decryptFor .standard key none input .unlimited withheld).outcome = .error .trailingData
        ∧ (decryptFor .standard key none input .unlimited withheld).written = [] := by
  intro key withheld
  let established : Established := .forOne key ⟨1, by decide, by decide⟩ (.zero 16) 2
  let layout := Layout.narrow established.header (established.chunks [1, 2, 3])
  have hopens : layout.Opens .standard key none Options.none.cancelled 0 established.key
      (cut 2 [1, 2, 3]) :=
    Established.opens_forOne _ _ _ _ none _ (fun _ => rfl) (by decide) (by decide) (by decide) 0
  let input : Source := .ofBytes (layout.octets ++ [0])
  have hread : ∃ s', decryptFor .standard key none input .unlimited .none
      = ((Run.mk ((cut 2 [1, 2, 3]).map openedPortion) (Prod.fst <$> checkEnd s')).release
        .unlimited false).report none layout.header.kind ∧ s'.bytes = [0] := by
    obtain ⟨s', hs', -, hdecrypt⟩ := hopens.decryptFor_eq .unlimited (Source.bytes_ofBytes _)
    exact ⟨s', hdecrypt, hs'⟩
  obtain ⟨s', hdecrypt, hs'⟩ := hread
  rw [checkEnd_of_ne_nil (by simp [hs']), Run.release_unlimited_of_error _ rfl,
    flatten_openedPortion] at hdecrypt
  have himmediate : (decryptFor .standard key none input .unlimited .none).outcome
      = .error .trailingData := by
    rw [hdecrypt]
    rfl
  obtain ⟨hsame, -, -, hnothing, -⟩ := decryptFor_withheld .standard key none input .none
  refine ⟨input, himmediate, ?_, hsame.trans himmediate, hnothing _ himmediate⟩
  rw [hdecrypt]
  rfl

end SealedEnvelope.Stream
