import SealedEnvelope.Proofs.Stream.Chunk
import SealedEnvelope.Proofs.Stream.Intake
import SealedEnvelope.Stream

set_option autoImplicit false

/-! # What encryption writes

Encryption reads one piece ahead, and has read everything once a piece is short (`Ahead`). A run
that ends well has written the chunks of all pieces of the payload (`closeAll_of_outcome_ok`). Where
the source does not fail, encryption goes through the pieces one by one, whatever the caller does
(`closeAll_eq_closePieces`), and it ends well if nobody cancels and the numbers suffice
(`closeAll_eq`). -/

namespace SealedEnvelope.Stream

/-- A chunk as a portion of the output. -/
def Chunk.portion (c : Chunk) : Portion := ⟨c.octets, c.ciphertext.length⟩

variable {n index fuel : Nat} {cancelled : Checkpoint → Bool} {current following : Bytes}
  {source s s' : Source}

/-! ## One step -/

theorem checkCancelled_apply :
    checkCancelled cancelled index s
      = if cancelled ⟨index, s.taken⟩ then .error .cancelled else .ok ((), s) := by
  rw [checkCancelled, state_bind_apply]
  simp only [Intake.taken, bind, Except.bind]
  split_ifs <;> rfl

theorem checkCancelled_eq_ok_iff :
    checkCancelled cancelled index s = .ok ((), s')
      ↔ cancelled ⟨index, s.taken⟩ = false ∧ s' = s := by
  rw [checkCancelled_apply]
  split_ifs with h
  · simp [h]
  · simp only [Bool.not_eq_true] at h
    simp only [Except.ok.injEq, Prod.mk.injEq, true_and, h]
    exact eq_comm

/-- The pieces are full until the source is exhausted. -/
def Ahead (n : Nat) (current : Bytes) (s : Source) : Prop := current.length = n ∨ s.bytes = []

theorem ahead_of_fill (h : Intake.fill n s = .ok (following, s')) :
    following = s.bytes.take n ∧ s'.bytes = s.bytes.drop n ∧ s.Leaves following s'
      ∧ Ahead n following s' := by
  obtain ⟨-, rfl, rfl⟩ := Intake.fill_eq_ok_iff.1 h
  refine ⟨rfl, Source.bytes_advance .., s.leaves_advance n, ?_⟩
  by_cases hn : n ≤ s.bytes.length
  · exact Or.inl (by rw [List.length_take, Nat.min_eq_left hn])
  · exact Or.inr (by rw [Source.bytes_advance, List.drop_of_length_le (by omega)])

/-- What is read behind a piece are the next octets of the source. -/
theorem Ahead.step (hahead : Ahead n current s)
    (h : (checkCancelled cancelled index >>= fun _ => readAhead n current) s
      = .ok (following, s')) :
    following = s.bytes.take n ∧ s'.bytes = s.bytes.drop n ∧ s.Leaves following s'
      ∧ Ahead n following s' := by
  obtain ⟨_, t, hcheck, hread⟩ := state_bind_eq_ok.1 h
  obtain ⟨-, rfl⟩ := checkCancelled_eq_ok_iff.1 hcheck
  rw [readAhead] at hread
  split_ifs at hread with hfull
  · exact ahead_of_fill hread
  · obtain ⟨rfl, rfl⟩ := state_pure_eq_ok.1 hread
    have hs := hahead.resolve_left hfull
    exact ⟨by rw [hs, List.take_nil], by rw [hs, List.drop_nil], .refl _, Or.inr hs⟩

/-- The step succeeds if the caller does not cancel there and the source ends. -/
theorem exists_step (n : Nat) (current : Bytes) (hcancelled : cancelled ⟨index, s.taken⟩ = false)
    (hending : s.ending = .finished) :
    ∃ following s', (checkCancelled cancelled index >>= fun _ => readAhead n current) s
      = .ok (following, s') := by
  have hcheck : checkCancelled cancelled index s = .ok ((), s) :=
    checkCancelled_eq_ok_iff.2 ⟨hcancelled, rfl⟩
  by_cases hfull : current.length = n
  · refine ⟨s.bytes.take n, s.advance n, state_bind_eq_ok.2 ⟨(), s, hcheck, ?_⟩⟩
    rw [readAhead, if_pos hfull]
    exact Intake.fill_eq (Or.inr hending)
  · refine ⟨[], s, state_bind_eq_ok.2 ⟨(), s, hcheck, ?_⟩⟩
    rw [readAhead, if_neg hfull]
    rfl

theorem take_ne_nil (hn : 0 < n) {bytes : Bytes} (h : bytes ≠ []) : bytes.take n ≠ [] := by
  rw [ne_eq, List.take_eq_nil_iff]
  simp [h, Nat.pos_iff_ne_zero.1 hn]

/-! ## The loop -/

variable {ctx : Context}

/-- With nothing behind it, a piece is the last. -/
theorem closeFrom_of_last
    (h : (checkCancelled cancelled index >>= fun _ => readAhead n current) s = .ok ([], s')) :
    closeFrom ctx n cancelled (fuel + 1) index current s
      = .cons (ctx.close index true current).portion (.ending (.ok ())) := by
  rw [closeFrom]
  simp only [h, Chunk.portion, Context.length_close]
  rfl

/-- With more behind it, a piece is followed by that under the next number, if there is one. -/
theorem closeFrom_of_next
    (h : (checkCancelled cancelled index >>= fun _ => readAhead n current) s
      = .ok (following, s')) (hne : following ≠ []) :
    closeFrom ctx n cancelled (fuel + 1) index current s
      = .cons (ctx.close index false current).portion
          (if index < lastIndex then closeFrom ctx n cancelled fuel (index + 1) following s'
          else .ending (.error (.lengthTooLong (lastIndex + 1) lastIndex))) := by
  have hempty : following.isEmpty = false := List.isEmpty_eq_false_iff.2 hne
  rw [closeFrom]
  simp only [h, Chunk.portion, Context.length_close, hempty, nextIndex, Bool.false_eq_true,
    if_false]
  split_ifs <;> rfl

/-- A run that ends well has written all that was to be written. -/
theorem closeFrom_of_outcome_ok (hn : 0 < n) (hindex : index ≤ lastIndex)
    (hahead : Ahead n current s)
    (hok : (closeFrom ctx n cancelled fuel index current s).outcome = .ok ()) :
    index + (blocks n s.bytes).length ≤ lastIndex
      ∧ (closeFrom ctx n cancelled fuel index current s).portions
        = (ctx.closeChunks index (current :: blocks n s.bytes)).map Chunk.portion := by
  -- Induction on the fuel: what is left of the payload is the piece read ahead and the source.
  induction fuel generalizing index current s with
  | zero => cases hok
  | succ fuel ih =>
    cases hstep : (checkCancelled cancelled index >>= fun _ => readAhead n current) s with
    | error e =>
      rw [closeFrom] at hok
      simp only [hstep] at hok
      cases hok
    | ok result =>
      obtain ⟨following, s'⟩ := result
      obtain ⟨hfollowing, hbytes, -, hahead'⟩ := hahead.step hstep
      by_cases hs : s.bytes = []
      · obtain rfl : following = [] := by rw [hfollowing, hs, List.take_nil]
        rw [closeFrom_of_last hstep, hs, blocks_nil]
        exact ⟨hindex, rfl⟩
      · have hne : following ≠ [] := hfollowing ▸ take_ne_nil hn hs
        rw [closeFrom_of_next hstep hne] at hok ⊢
        split_ifs at hok ⊢ with hlt
        · obtain ⟨hcount, hportions⟩ := ih (by omega) hahead' hok
          rw [hbytes] at hcount hportions
          rw [blocks_of_ne_nil hn hs, List.length_cons, ← hfollowing]
          refine ⟨by omega, ?_⟩
          rw [Context.closeChunks, List.map_cons, ← hportions]
          rfl
        · cases hok

/-! ## Encryption piece by piece -/

/-- Encrypts pieces from number `index` on, unless `stopped` before one of them. -/
def closePieces (ctx : Context) (stopped : Nat → Bool) (index : Nat) : List Bytes → Run
  | [] => .ending (.ok ())
  | piece :: rest =>
    if stopped index then .ending (.error .cancelled)
    else
      let later :=
        if rest.isEmpty then Run.ending (.ok ())
        else if index < lastIndex then closePieces ctx stopped (index + 1) rest
        else .ending (.error (.lengthTooLong (lastIndex + 1) lastIndex))
      later.cons (ctx.close index rest.isEmpty piece).portion

/-- Where encryption stands before the chunk of number `i`: the piece for it is read. -/
def checkpointBefore (n : Nat) (source : Source) (i : Nat) : Checkpoint :=
  ⟨i, source.taken + (source.bytes.take ((i + 1) * n)).length⟩

/-- The loop goes through the piece read ahead and those that the source still holds. -/
theorem closeFrom_eq_closePieces (hn : 0 < n) (hending : source.ending = .finished)
    (hahead : Ahead n current s) (hleaves : source.Leaves (source.bytes.take ((index + 1) * n)) s)
    (hfuel : s.bytes.length < fuel) :
    closeFrom ctx n cancelled fuel index current s
      = closePieces ctx (fun i => cancelled (checkpointBefore n source i)) index
        (current :: blocks n s.bytes) := by
  -- Induction on the fuel, which lasts as every step but the last takes octets from the source.
  induction fuel generalizing index current s with
  | zero => exact absurd hfuel (Nat.not_lt_zero _)
  | succ fuel ih =>
    have hcheckpoint : checkpointBefore n source index = ⟨index, s.taken⟩ := by
      rw [checkpointBefore, hleaves.taken]
    rw [closePieces]
    cases hcancelled : cancelled ⟨index, s.taken⟩ with
    | true =>
      have hstep : (checkCancelled cancelled index >>= fun _ => readAhead n current) s
          = .error .cancelled := by
        rw [state_bind_apply, checkCancelled_apply, hcancelled]
        rfl
      rw [hcheckpoint, hcancelled, if_pos rfl, closeFrom]
      simp only [hstep]
    | false =>
      rw [hcheckpoint, hcancelled, if_neg (by decide)]
      obtain ⟨following, s', hstep⟩ :=
        exists_step n current hcancelled (hleaves.ending.trans hending)
      obtain ⟨hfollowing, hbytes, hleaves', hahead'⟩ := hahead.step hstep
      by_cases hs : s.bytes = []
      · obtain rfl : following = [] := by rw [hfollowing, hs, List.take_nil]
        rw [closeFrom_of_last hstep, hs, blocks_nil]
        rfl
      · have hne : following ≠ [] := hfollowing ▸ take_ne_nil hn hs
        have hshorter : s'.bytes.length < fuel := by
          have hpos := List.length_pos_iff.2 hs
          rw [hbytes, List.length_drop]
          omega
        have hread : source.Leaves (source.bytes.take ((index + 1 + 1) * n)) s' := by
          have hdrop := hleaves.bytes_eq (List.take_append_drop ..).symm
          rw [Nat.succ_mul, List.take_add, ← hdrop, ← hfollowing]
          exact hleaves.trans hleaves'
        rw [closeFrom_of_next hstep hne, blocks_of_ne_nil hn hs, ← hfollowing, ← hbytes,
          ih hahead' hread hshorter]
        rfl

/-- Undisturbed, encryption writes all chunks that get a number, and ends well if all do. -/
theorem closePieces_undisturbed (ctx : Context) {pieces : List Bytes} (hindex : index ≤ lastIndex)
    (hpieces : pieces ≠ []) :
    closePieces ctx (fun _ => false) index pieces
      = ⟨((ctx.closeChunks index pieces).take (lastIndex + 1 - index)).map Chunk.portion,
        if pieces.length ≤ lastIndex + 1 - index then .ok ()
        else .error (.lengthTooLong (lastIndex + 1) lastIndex)⟩ := by
  induction pieces generalizing index with
  | nil => exact absurd rfl hpieces
  | cons piece rest ih =>
    obtain ⟨left, hleft⟩ := Nat.exists_eq_add_of_le' (Nat.sub_pos_of_lt (Nat.lt_succ_of_le hindex))
    rw [closePieces, if_neg (by decide), hleft, Context.closeChunks, List.take_succ_cons]
    cases rest with
    | nil =>
      rw [if_pos (show [piece].length ≤ left + 1 from Nat.le_add_left 1 left), Context.closeChunks,
        List.take_nil]
      rfl
    | cons second rest =>
      by_cases hnumber : index < lastIndex
      · have hlater := ih hnumber (List.cons_ne_nil second rest)
        rw [show lastIndex + 1 - (index + 1) = left by omega] at hlater
        simp only [List.isEmpty_cons, Bool.false_eq_true, if_false, if_pos hnumber, hlater,
          Run.cons, List.map_cons, List.length_cons, Nat.add_le_add_iff_right]
      · obtain rfl : left = 0 := by omega
        simp only [List.isEmpty_cons, Bool.false_eq_true, if_false, if_neg hnumber, Run.cons,
          Run.ending, List.take_zero, List.map_cons, List.map_nil, List.length_cons,
          Nat.add_le_add_iff_right, Nat.le_zero, Nat.add_eq_zero_iff, Nat.one_ne_zero, and_false]

/-! ## The whole payload -/

theorem closeAll_of_outcome_ok (hn : 0 < n) (hok : (closeAll ctx n cancelled s).outcome = .ok ()) :
    (cut n s.bytes).length ≤ lastIndex + 1
      ∧ closeAll ctx n cancelled s
        = ⟨(ctx.closeChunks 0 (cut n s.bytes)).map Chunk.portion, .ok ()⟩ := by
  cases hfirst : Intake.fill n s with
  | error e =>
    rw [closeAll, hfirst] at hok
    cases hok
  | ok result =>
    obtain ⟨first, s'⟩ := result
    obtain ⟨rfl, hbytes, -, hahead⟩ := ahead_of_fill hfirst
    have hrun : closeAll ctx n cancelled s
        = closeFrom ctx n cancelled (s'.bytes.length + 1) 0 (s.bytes.take n) s' := by
      rw [closeAll, hfirst]
    rw [hrun] at hok ⊢
    obtain ⟨hcount, hportions⟩ := closeFrom_of_outcome_ok hn (Nat.zero_le _) hahead hok
    rw [hbytes, Nat.zero_add] at hcount
    rw [hbytes] at hportions hok ⊢
    refine ⟨Nat.succ_le_succ hcount, ?_⟩
    rw [cut, ← hportions, ← hok]

/-- Encryption goes through the pieces of the payload. -/
theorem closeAll_eq_closePieces (ctx : Context) (hn : 0 < n)
    (cancelled : Checkpoint → Bool) (hending : source.ending = .finished) :
    closeAll ctx n cancelled source
      = closePieces ctx (fun i => cancelled (checkpointBefore n source i)) 0
        (cut n source.bytes) := by
  have hfirst := Intake.fill_eq (n := n) (Or.inr hending)
  obtain ⟨-, hbytes, hleaves, hahead⟩ := ahead_of_fill hfirst
  have hread : source.Leaves (source.bytes.take ((0 + 1) * n)) (source.advance n) := by
    rw [Nat.zero_add, Nat.one_mul]
    exact hleaves
  rw [closeAll, hfirst]
  simp only
  rw [closeFrom_eq_closePieces hn hending hahead hread (Nat.lt_succ_self _), hbytes, cut]

theorem closeAll_eq (hn : 0 < n) (hcancelled : ∀ c, cancelled c = false)
    (hending : s.ending = .finished) (hcount : (cut n s.bytes).length ≤ lastIndex + 1) :
    closeAll ctx n cancelled s
      = ⟨(ctx.closeChunks 0 (cut n s.bytes)).map Chunk.portion, .ok ()⟩ := by
  have hnever : (fun i => cancelled (checkpointBefore n s i)) = fun _ => false := by
    funext i
    exact hcancelled _
  rw [closeAll_eq_closePieces ctx hn cancelled hending, hnever,
    closePieces_undisturbed ctx (Nat.zero_le _) (cut_ne_nil n s.bytes), Nat.sub_zero,
    if_pos hcount, List.take_of_length_le]
  rwa [Context.length_closeChunks]

end SealedEnvelope.Stream
