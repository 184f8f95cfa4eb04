import SealedEnvelope.Stream.Progress

set_option autoImplicit false

/-! # What gets into a channel

A stream sends its snapshots one after the other, and waits for nobody. What gets into the channel
comes in that order (`Channel.exists_delivered_behind`). Where nothing is received it is the first
ones (`Channel.exists_delivered_undrained`), and where the channel is left alone as many as there is
room for (`Channel.behind_idle`). With room for all, all get in, unless the receiver closes the
channel (`Channel.delivered_behind_of_room`). -/

namespace SealedEnvelope.Stream

namespace Channel

variable {c : Channel} {snapshots : List Snapshot}

/-- The channel behind snapshots that were sent into it. -/
def behind (receiver : Receiver) (c : Channel) (snapshots : List Snapshot) : Channel :=
  snapshots.foldl (exchange receiver) c

@[simp] theorem behind_nil (receiver : Receiver) (c : Channel) : c.behind receiver [] = c := rfl

theorem behind_cons (receiver : Receiver) (c : Channel) (s : Snapshot) (rest : List Snapshot) :
    c.behind receiver (s :: rest) = (c.exchange receiver s).behind receiver rest := rfl

/-- What has been sent into a channel, whether or not it has been received. -/
def delivered (c : Channel) : List Snapshot := c.received ++ c.held

/-- A channel that takes nothing as long as nothing is received. -/
def Stuck (c : Channel) : Prop := c.closed = true ∨ c.capacity ≤ c.held.length

/-- A snapshot is sent if the channel is not stuck, and otherwise the channel is left alone. -/
theorem trySend_cases (c : Channel) (s : Snapshot) :
    (c.Stuck ∧ (c.trySend s).2 = c)
      ∨ (c.closed = false ∧ c.held.length < c.capacity
        ∧ (c.trySend s).2 = { c with held := c.held ++ [s] }) := by
  rw [Stuck, trySend]
  cases hclosed : c.closed with
  | true => exact Or.inl ⟨Or.inl rfl, rfl⟩
  | false =>
    by_cases hroom : c.held.length < c.capacity
    · exact Or.inr ⟨rfl, hroom, by simp [hroom]⟩
    · exact Or.inl ⟨Or.inr (Nat.not_lt.1 hroom), by simp [hroom]⟩

/-! ### The receiver's turn -/

@[simp] theorem delivered_act (c : Channel) (a : ReceiverAct) :
    (c.act a).delivered = c.delivered := by
  cases a with
  | close => rfl
  | receive =>
    rw [act]
    split
    · rfl
    · next s rest hheld => simp [delivered, hheld]

@[simp] theorem delivered_acts (c : Channel) (acts : List ReceiverAct) :
    (acts.foldl act c).delivered = c.delivered := by
  induction acts generalizing c with
  | nil => rfl
  | cons a rest ih => rw [List.foldl_cons, ih, delivered_act]

/-- Unless it is closed, a channel only gets emptier. -/
theorem open_acts {acts : List ReceiverAct} (hclose : .close ∉ acts) (hopen : c.closed = false) :
    (acts.foldl act c).closed = false ∧ (acts.foldl act c).capacity = c.capacity
      ∧ (acts.foldl act c).held.length ≤ c.held.length := by
  induction acts generalizing c with
  | nil => exact ⟨hopen, rfl, Nat.le_refl _⟩
  | cons a rest ih =>
    rw [List.mem_cons, not_or] at hclose
    cases a with
    | close => exact absurd rfl hclose.1
    | receive =>
      have hact : (c.act .receive).closed = false ∧ (c.act .receive).capacity = c.capacity
          ∧ (c.act .receive).held.length ≤ c.held.length := by
        rw [act]
        split
        · exact ⟨hopen, rfl, Nat.le_refl _⟩
        · next s rest hheld => exact ⟨hopen, rfl, by simp [hheld]⟩
      obtain ⟨hclosed, hcapacity, hle⟩ := ih hclose.2 hact.1
      exact ⟨hclosed, hcapacity.trans hact.2.1, Nat.le_trans hle hact.2.2⟩

/-- Unless something is received, a channel that is stuck stays stuck. -/
theorem Stuck.acts {acts : List ReceiverAct} (h : c.Stuck) (hreceive : .receive ∉ acts) :
    (acts.foldl act c).Stuck := by
  induction acts generalizing c with
  | nil => exact h
  | cons a rest ih =>
    rw [List.mem_cons, not_or] at hreceive
    cases a with
    | receive => exact absurd rfl hreceive.1
    | close => exact ih (c := c.act .close) (Or.inl rfl) hreceive.2

/-! ### Many snapshots -/

/-- Whatever the receiver does, the snapshots that are sent come in their order. -/
theorem exists_delivered_behind (receiver : Receiver) (c : Channel) (snapshots : List Snapshot) :
    ∃ sent, sent.Sublist snapshots
      ∧ (c.behind receiver snapshots).delivered = c.delivered ++ sent := by
  induction snapshots generalizing c with
  | nil => exact ⟨[], List.Sublist.refl _, (List.append_nil _).symm⟩
  | cons s rest ih =>
    obtain ⟨sent, hsent, hdelivered⟩ := ih (c.exchange receiver s)
    rw [behind_cons, hdelivered, exchange, delivered_acts]
    rcases c.trySend_cases s with ⟨-, htry⟩ | ⟨-, -, htry⟩
    · exact ⟨sent, hsent.cons s, by rw [htry]⟩
    · exact ⟨s :: sent, hsent.cons_cons s, by rw [htry]; simp [delivered]⟩

/-- Every snapshot is sent if there is room for all of them and the receiver does not close the
    channel. -/
theorem delivered_behind_of_room {receiver : Receiver} (hclose : ∀ k, .close ∉ receiver k)
    (hopen : c.closed = false) (hroom : c.held.length + snapshots.length ≤ c.capacity) :
    (c.behind receiver snapshots).delivered = c.delivered ++ snapshots := by
  induction snapshots generalizing c with
  | nil => simp
  | cons s rest ih =>
    rw [List.length_cons] at hroom
    rcases c.trySend_cases s with ⟨hclosed | hfull, -⟩ | ⟨-, -, htry⟩
    · rw [hopen] at hclosed
      cases hclosed
    · omega
    · obtain ⟨hopen', hcapacity, hle⟩ :
          (c.exchange receiver s).closed = false ∧ (c.exchange receiver s).capacity = c.capacity
            ∧ (c.exchange receiver s).held.length ≤ (c.held ++ [s]).length := by
        rw [exchange, htry]
        exact open_acts (hclose s.chunks) hopen
      rw [List.length_append, List.length_singleton] at hle
      rw [behind_cons, ih hopen' (by omega), exchange, delivered_acts, htry]
      simp [delivered]

/-- A stuck channel takes nothing if nothing is received. -/
theorem Stuck.delivered_behind {receiver : Receiver} (h : c.Stuck)
    (hreceive : ∀ k, .receive ∉ receiver k) :
    (c.behind receiver snapshots).delivered = c.delivered := by
  induction snapshots generalizing c with
  | nil => rfl
  | cons s rest ih =>
    have htry : (c.trySend s).2 = c := by
      rcases c.trySend_cases s with ⟨-, htry⟩ | ⟨hopen, hroom, -⟩
      · exact htry
      · rcases h with hclosed | hfull
        · rw [hopen] at hclosed
          cases hclosed
        · omega
    rw [behind_cons, ih, exchange, delivered_acts, htry]
    rw [exchange, htry]
    exact h.acts (hreceive s.chunks)

/-- Nothing is received, so the snapshots that are sent are the first ones. -/
theorem exists_delivered_undrained {receiver : Receiver} (hreceive : ∀ k, .receive ∉ receiver k)
    (c : Channel) (snapshots : List Snapshot) :
    ∃ sent, sent <+: snapshots
      ∧ (c.behind receiver snapshots).delivered = c.delivered ++ sent := by
  induction snapshots generalizing c with
  | nil => exact ⟨[], List.prefix_refl _, (List.append_nil _).symm⟩
  | cons s rest ih =>
    rcases c.trySend_cases s with ⟨hstuck, -⟩ | ⟨-, -, htry⟩
    · exact ⟨[], List.nil_prefix, by rw [hstuck.delivered_behind hreceive, List.append_nil]⟩
    · obtain ⟨sent, hsent, hdelivered⟩ := ih (c.exchange receiver s)
      refine ⟨s :: sent, (List.prefix_cons_inj s).2 hsent, ?_⟩
      rw [behind_cons, hdelivered, exchange, delivered_acts, htry]
      simp [delivered]

/-- Left alone, a channel that is open takes as many snapshots as there is room for. -/
theorem behind_idle (hopen : c.closed = false) (snapshots : List Snapshot) :
    c.behind (fun _ => []) snapshots
      = { c with held := c.held ++ snapshots.take (c.capacity - c.held.length) } := by
  induction snapshots generalizing c with
  | nil => simp
  | cons s rest ih =>
    rw [behind_cons, exchange, List.foldl_nil]
    rcases c.trySend_cases s with ⟨hclosed | hfull, htry⟩ | ⟨-, hroom, htry⟩
    · rw [hopen] at hclosed
      cases hclosed
    · rw [htry, ih hopen, Nat.sub_eq_zero_of_le hfull, List.take_zero, List.take_zero]
    · obtain ⟨left, hleft⟩ := Nat.exists_eq_add_of_lt hroom
      rw [htry, ih (c := { c with held := c.held ++ [s] }) hopen, List.length_append,
        List.length_singleton, show c.capacity - c.held.length = left + 1 by omega,
        show c.capacity - (c.held.length + 1) = left by omega, List.take_succ_cons,
        List.append_assoc]
      rfl

end Channel

/-- A queue holds what a channel holds that is left alone. -/
theorem enqueue_eq_held_behind {c : Channel} (hopen : c.closed = false)
    (snapshots : List Snapshot) :
    enqueue c.capacity c.held snapshots = (c.behind (fun _ => []) snapshots).held := by
  induction snapshots generalizing c with
  | nil => rfl
  | cons s rest ih =>
    rw [enqueue, Channel.behind_cons, Channel.exchange, List.foldl_nil]
    rcases c.trySend_cases s with ⟨hclosed | hfull, htry⟩ | ⟨-, hroom, htry⟩
    · rw [hopen] at hclosed
      cases hclosed
    · rw [htry, if_neg (Nat.not_lt.2 hfull), ih hopen]
    · rw [htry, if_pos hroom]
      exact ih (c := { c with held := c.held ++ [s] }) hopen

/-- So it holds the first snapshots that there is room for. -/
theorem queued_eq_take (capacity : Nat) (snapshots : List Snapshot) :
    queued capacity snapshots = snapshots.take capacity := by
  have hheld := enqueue_eq_held_behind (c := .fresh capacity) rfl snapshots
  rwa [Channel.behind_idle rfl] at hheld

end SealedEnvelope.Stream
