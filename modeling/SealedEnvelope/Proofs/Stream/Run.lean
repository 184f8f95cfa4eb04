import SealedEnvelope.Stream.Run

set_option autoImplicit false

/-! # What becomes of a run

A run that is delivered and ends well has been written whole, whatever the sink
(`Run.deliver_of_outcome_ok`). Since that sink took every portion, it takes the first ones of a run
that fails behind them (`Run.deliver_of_initial`). `Run.release` is delivery portion by portion or
withheld, and to a sink that takes everything, a run is delivered as it is. -/

namespace SealedEnvelope.Stream

namespace Sink

theorem writeWithin_of_failure_none {reason : String} {room : Nat} {writes : List Bytes}
    (h : (writeWithin reason room writes).failure = none) :
    (writeWithin reason room writes).written = writes.flatten
      ∧ (writeWithin reason room writes).whole = writes.length := by
  induction writes generalizing room with
  | nil => exact ⟨rfl, rfl⟩
  | cons w rest ih =>
    by_cases hroom : w.length ≤ room
    · rw [writeWithin, if_pos hroom] at h ⊢
      obtain ⟨hwritten, hwhole⟩ := ih h
      exact ⟨by simp [hwritten], by simp [hwhole]⟩
    · rw [writeWithin, if_neg hroom] at h
      cases h

/-- A sink that has not failed has taken every write. -/
theorem write_of_failure_none {sink : Sink} {writes : List Bytes}
    (h : (sink.write writes).failure = none) :
    (sink.write writes).written = writes.flatten ∧ (sink.write writes).whole = writes.length := by
  rw [write] at h ⊢
  split
  · next room reason hlimit =>
    rw [hlimit] at h
    exact writeWithin_of_failure_none h
  · exact ⟨rfl, rfl⟩

theorem writeWithin_append_failure {reason : String} {room : Nat} {writes more : List Bytes}
    (h : (writeWithin reason room (writes ++ more)).failure = none) :
    (writeWithin reason room writes).failure = none := by
  induction writes generalizing room with
  | nil => rfl
  | cons w rest ih =>
    by_cases hroom : w.length ≤ room
    · rw [List.cons_append, writeWithin, if_pos hroom] at h
      rw [writeWithin, if_pos hroom]
      exact ih h
    · rw [List.cons_append, writeWithin, if_neg hroom] at h
      cases h

/-- A sink that has not failed has not failed before. -/
theorem failure_none_of_initial {sink : Sink} {writes writes' : List Bytes}
    (h : (sink.write writes).failure = none) (hinitial : writes' <+: writes) :
    (sink.write writes').failure = none := by
  obtain ⟨more, rfl⟩ := hinitial
  rw [write] at h ⊢
  split
  · next room reason hlimit =>
    rw [hlimit] at h
    exact writeWithin_append_failure h
  · rfl

theorem written_writeWithin_prefix (reason : String) (room : Nat) (writes : List Bytes) :
    (writeWithin reason room writes).written <+: writes.flatten := by
  induction writes generalizing room with
  | nil => exact List.nil_prefix
  | cons w rest ih =>
    rw [writeWithin]
    split
    · exact (List.prefix_append_right_inj w).2 (ih _)
    · exact (List.take_prefix room w).trans (List.prefix_append w _)

/-- What a sink has taken are the first octets of what is written to it. -/
theorem written_write_prefix (sink : Sink) (writes : List Bytes) :
    (sink.write writes).written <+: writes.flatten := by
  rw [write]
  split
  · exact written_writeWithin_prefix ..
  · exact List.prefix_refl _

theorem reason_of_writeWithin {reason reason' : String} {room : Nat} {writes : List Bytes}
    (h : (writeWithin reason room writes).failure = some reason') : reason = reason' := by
  induction writes generalizing room with
  | nil => cases h
  | cons w rest ih =>
    rw [writeWithin] at h
    split at h
    · exact ih h
    · exact Option.some.inj h

/-- Only a sink with a limit fails to take a write. -/
theorem limit_of_failure {sink : Sink} {writes : List Bytes} {reason : String}
    (h : (sink.write writes).failure = some reason) : ∃ room, sink.limit = some (room, reason) := by
  rw [write] at h
  split at h
  · next room reason' hlimit => exact ⟨room, by rw [hlimit, reason_of_writeWithin h]⟩
  · cases h

end Sink

namespace Run

variable {run run' : Run} {sink : Sink} {opening : Bytes} {withhold : Bool} {e : Error}

/-! ## Portion by portion -/

/-- To a sink that does not fail a run is delivered as it is, and then flushed. -/
theorem deliver_of_failure_none
    (h : (sink.write (opening :: run.portions.map (·.octets))).failure = none) :
    run.deliver sink opening
      = ⟨opening ++ (run.portions.map (·.octets)).flatten, run.portions,
        run.outcome.bind fun _ => sink.flush⟩ := by
  obtain ⟨hwritten, hwhole⟩ := Sink.write_of_failure_none h
  simp only [deliver, conclude, h, hwritten, hwhole, List.flatten_cons, List.length_cons,
    List.length_map, Nat.add_sub_cancel, List.take_length]
  rfl

theorem failure_none_of_outcome_ok (h : (run.deliver sink opening).outcome = .ok ()) :
    (sink.write (opening :: run.portions.map (·.octets))).failure = none := by
  rw [deliver, conclude] at h
  split at h
  · cases h
  · assumption

/-- Delivered well, a run has ended well and is written whole. -/
theorem deliver_of_outcome_ok (h : (run.deliver sink opening).outcome = .ok ()) :
    run.outcome = .ok ()
      ∧ run.deliver sink opening
        = ⟨opening ++ (run.portions.map (·.octets)).flatten, run.portions, .ok ()⟩ := by
  have hdeliver := deliver_of_failure_none (failure_none_of_outcome_ok h)
  rw [hdeliver] at h ⊢
  cases hrun : run.outcome with
  | ok _ =>
    rw [hrun] at h
    exact ⟨rfl, congrArg (Result.mk _ _) h⟩
  | error e =>
    rw [hrun] at h
    cases h

/-- Where a run is delivered well, one that fails behind its first portions is delivered up to
    there. -/
theorem deliver_of_initial (h : (run.deliver sink opening).outcome = .ok ())
    (hinitial : run'.portions <+: run.portions) (he : run'.outcome = .error e) :
    run'.deliver sink opening
      = ⟨opening ++ (run'.portions.map (·.octets)).flatten, run'.portions, .error e⟩ := by
  have hwrites : opening :: run'.portions.map (·.octets)
      <+: opening :: run.portions.map (·.octets) :=
    List.prefix_cons_inj _ |>.2 (hinitial.map _)
  have hfailure := Sink.failure_none_of_initial (failure_none_of_outcome_ok h) hwrites
  rw [deliver_of_failure_none hfailure, he]
  rfl

/-- A run that fails is reported as failed so, unless the sink fails before. -/
theorem outcome_deliver_of_error (he : run.outcome = .error e) :
    (run.deliver sink opening).outcome = .error e
      ∨ ∃ room reason, sink.limit = some (room, reason)
        ∧ (run.deliver sink opening).outcome = .error (.io reason) := by
  cases hfailure : (sink.write (opening :: run.portions.map (·.octets))).failure with
  | none =>
    rw [deliver_of_failure_none hfailure, he]
    exact Or.inl rfl
  | some reason =>
    obtain ⟨room, hlimit⟩ := Sink.limit_of_failure hfailure
    refine Or.inr ⟨room, reason, hlimit, ?_⟩
    simp only [deliver, conclude, hfailure]

theorem deliver_unlimited :
    run.deliver .unlimited opening
      = ⟨opening ++ (run.portions.map (·.octets)).flatten, run.portions, run.outcome⟩ := by
  rw [deliver_of_failure_none rfl]
  cases run.outcome <;> rfl

/-! ## Withheld -/

theorem deliverWithheld_of_outcome_ok (h : (run.deliverWithheld sink).outcome = .ok ()) :
    run.outcome = .ok ()
      ∧ run.deliverWithheld sink
        = ⟨(run.portions.map (·.octets)).flatten, run.portions, .ok ()⟩ := by
  cases hrun : run.outcome with
  | error e =>
    rw [deliverWithheld, hrun] at h
    cases h
  | ok _ =>
    refine ⟨rfl, ?_⟩
    rw [deliverWithheld] at h ⊢
    simp only [hrun] at h ⊢
    have hfailure : (sink.write [(run.portions.map (·.octets)).flatten]).failure = none := by
      rw [conclude] at h
      split at h
      · cases h
      · assumption
    rw [(Sink.write_of_failure_none hfailure).1, h]
    simp

/-! ## Either way -/

/-- Delivers the plaintext of a run, portion by portion or withheld. -/
def release (run : Run) (sink : Sink) (withhold : Bool) : Result :=
  if withhold then run.deliverWithheld sink else run.deliver sink []

/-- Released well, a run has ended well and is written whole. -/
theorem release_of_outcome_ok (h : (run.release sink withhold).outcome = .ok ()) :
    run.outcome = .ok ()
      ∧ run.release sink withhold
        = ⟨(run.portions.map (·.octets)).flatten, run.portions, .ok ()⟩ := by
  cases withhold with
  | true => exact deliverWithheld_of_outcome_ok h
  | false => exact deliver_of_outcome_ok h

/-- A sink that takes everything fails no run that ends well. -/
theorem release_unlimited (h : run.outcome = .ok ()) :
    (run.release .unlimited withhold).outcome = .ok () := by
  cases withhold with
  | true =>
    rw [release, if_pos rfl, deliverWithheld, h]
    rfl
  | false =>
    rw [release, if_neg (by decide), deliver_unlimited, h]

/-- To a sink that takes everything, a run that ends well is released whole, withheld or not. -/
theorem release_unlimited_of_ok (withhold : Bool) (h : run.outcome = .ok ()) :
    run.release .unlimited withhold
      = ⟨(run.portions.map (·.octets)).flatten, run.portions, .ok ()⟩ :=
  (release_of_outcome_ok (release_unlimited h)).2

/-- A run that fails is released up to there, or not at all if it is withheld. -/
theorem release_unlimited_of_error (withhold : Bool) (h : run.outcome = .error e) :
    run.release .unlimited withhold
      = ⟨if withhold then [] else (run.portions.map (·.octets)).flatten, run.portions,
        .error e⟩ := by
  cases withhold with
  | true =>
    rw [release, if_pos rfl, deliverWithheld, h]
    rfl
  | false =>
    rw [release, if_neg (by decide), deliver_unlimited, h]
    rfl

/-- Where a run is released well, one that fails behind its first portions is released up to there,
    or not at all if it is withheld. -/
theorem release_of_initial (h : (run.release sink withhold).outcome = .ok ())
    (hinitial : run'.portions <+: run.portions) (he : run'.outcome = .error e) :
    run'.release sink withhold
      = ⟨if withhold then [] else (run'.portions.map (·.octets)).flatten, run'.portions,
        .error e⟩ := by
  cases withhold with
  | true =>
    rw [release, if_pos rfl, deliverWithheld, he]
    rfl
  | false => exact deliver_of_initial h hinitial he

end Run

end SealedEnvelope.Stream
