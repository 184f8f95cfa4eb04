import SealedEnvelope.Proofs.Octets
import SealedEnvelope.Proofs.Sequence
import SealedEnvelope.Reader

set_option autoImplicit false

/-! # What readers accept

The format has one written form for every value, so a reader is described by one equivalence: it
gives `a` and leaves `rest` exactly if the input is the written form of `a` followed by `rest`.
Round trips and uniqueness of the written form are both read off such a statement. Readers of fields
fail with a malformed header only (`Malformed`), and so does what is put together from them. -/

namespace SealedEnvelope.Reader

variable {α β : Type} {input rest : Bytes} {field : String}

/-! ## Fields -/

theorem octets_eq_ok_iff {n : Nat} {a : Octets n} :
    octets n field input = .ok (a, rest) ↔ input = a.bytes ++ rest := by
  rw [← Octets.split?_eq_some_iff, octets]
  cases Octets.split? n input <;> simp

theorem octet_eq_ok_iff {b : UInt8} : octet field input = .ok (b, rest) ↔ input = b :: rest := by
  cases input <;> simp [octet]

theorem nat_eq_ok_iff {width n : Nat} :
    nat width field input = .ok (n, rest)
      ↔ n < 256 ^ width ∧ input = bigEndian width n ++ rest := by
  rw [nat, state_map_eq_ok]
  constructor
  · rintro ⟨a, ha, rfl⟩
    refine ⟨a.toNat_lt, ?_⟩
    rw [octets_eq_ok_iff.1 ha, ← Octets.bytes_ofNat, a.ofNat_toNat]
  · rintro ⟨hlt, rfl⟩
    exact ⟨Octets.ofNat width n, octets_eq_ok_iff.2 rfl, Octets.toNat_ofNat hlt⟩

theorem remaining_eq_ok_iff {n : Nat} :
    remaining input = .ok (n, rest) ↔ input.length = n ∧ input = rest := by
  simp [remaining]

/-- Reading a number of values in a row, where `written` is the written form of one of them. -/
theorem times_eq_ok_iff {read : Reader α} {written : α → Bytes} {valid : α → Prop}
    (h : ∀ {input a rest}, read input = .ok (a, rest) ↔ valid a ∧ input = written a ++ rest)
    {n : Nat} {l : List α} :
    times read n input = .ok (l, rest)
      ↔ l.length = n ∧ (∀ a ∈ l, valid a) ∧ input = l.flatMap written ++ rest := by
  -- Induction on the number of values; each is read from what those before it have left.
  induction n generalizing input l with
  | zero =>
    rw [times, state_pure_eq_ok]
    constructor
    · rintro ⟨rfl, rfl⟩
      simp
    · rintro ⟨hlen, -, hinput⟩
      obtain rfl := List.length_eq_zero_iff.1 hlen
      exact ⟨rfl, by simpa using hinput⟩
  | succ n ih =>
    simp only [times, state_bind_eq_ok, state_pure_eq_ok]
    constructor
    · rintro ⟨first, s, hfirst, others, s', hothers, rfl, rfl⟩
      obtain ⟨hvalid, rfl⟩ := h.1 hfirst
      obtain ⟨hlen, hall, rfl⟩ := ih.1 hothers
      refine ⟨by simp [hlen], ?_, by simp⟩
      intro a ha
      rcases List.mem_cons.1 ha with rfl | ha
      · exact hvalid
      · exact hall a ha
    · rintro ⟨hlen, hall, hinput⟩
      cases l with
      | nil => simp at hlen
      | cons first others =>
        have hfirst : valid first := hall first (List.mem_cons_self ..)
        have hothers : ∀ a ∈ others, valid a := fun a ha => hall a (List.mem_cons_of_mem _ ha)
        refine ⟨first, others.flatMap written ++ rest, h.2 ⟨hfirst, ?_⟩, others, rest, ?_, rfl, rfl⟩
        · simpa using hinput
        · exact ih.2 ⟨by simpa using hlen, hothers, rfl⟩

/-! ## Failures -/

/-- A computation that fails with a malformed header only. -/
def Malformed (x : Except Error α) : Prop :=
  ∀ e, x = .error e → ∃ reason, e = .malformedHeader reason

theorem malformed_octets {n : Nat} : Malformed (octets n field input) := by
  intro e h
  rw [octets] at h
  split at h
  · simp at h
  · obtain rfl : truncated field n input.length = e := by simpa using h
    exact ⟨_, rfl⟩

theorem malformed_nat {width : Nat} : Malformed (nat width field input) := by
  intro e h
  exact malformed_octets e (state_map_eq_error.1 h)

theorem malformed_remaining : Malformed (remaining input) := by
  intro e h
  simp [remaining] at h

theorem malformed_pure {a : α} : Malformed ((pure a : Reader α) input) := by
  intro e h
  exact (state_pure_eq_error.1 h).elim

theorem malformed_lift {x : Except Error α} (h : Malformed x) :
    Malformed ((liftM x : Reader α) input) := by
  intro e he
  exact h e (state_lift_eq_error.1 he)

theorem malformed_bind {read : Reader α} {next : α → Reader β} (h : Malformed (read input))
    (hnext : ∀ a rest, Malformed (next a rest)) : Malformed ((read >>= next) input) := by
  intro e he
  rcases state_bind_eq_error.1 he with he | ⟨a, rest, -, he⟩
  · exact h e he
  · exact hnext a rest e he

theorem malformed_times {read : Reader α} (h : ∀ input, Malformed (read input)) (n : Nat)
    (input : Bytes) : Malformed (times read n input) := by
  induction n generalizing input with
  | zero => exact malformed_pure
  | succ n ih =>
    refine malformed_bind (h input) fun first rest => ?_
    exact malformed_bind (ih rest) fun others rest => malformed_pure

end SealedEnvelope.Reader
