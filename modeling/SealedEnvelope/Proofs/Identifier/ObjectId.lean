import SealedEnvelope.Identifier.ObjectId
import SealedEnvelope.Proofs.Octets
import Mathlib.Data.List.Nodup

set_option autoImplicit false

/-! # Object identifiers do not repeat

An object identifier is determined by its three parts (`eq_iff_parts`), and a generator writes the
clock's seconds, the octets of the process and the low 24 bits of its counter into them. Behind `n`
identifiers the written counter is `n` further modulo 2^24 (`toNat_counter_advance`), also where the
counter itself wraps at 2^32. So two identifiers of a run are the same exactly if their seconds are
and their places differ by a multiple of 2^24 (`next_advance_eq_iff`), whatever the clock does. -/

namespace SealedEnvelope.ObjectId

variable {a b : Octets 12}

/-! ## The parts of an identifier -/

theorem bytes_eq_parts (id : Octets 12) :
    id.bytes = id.bytes.take 4 ++ (process id ++ id.bytes.drop 9) := by
  have hbehind : (id.bytes.drop 4).drop 5 = id.bytes.drop 9 := List.drop_drop
  rw [process, ← hbehind, List.take_append_drop, List.take_append_drop]

/-- The seconds, the octets of the process and the counter determine an identifier. -/
theorem eq_iff_parts :
    a = b ↔ timestamp a = timestamp b ∧ process a = process b ∧ counter a = counter b := by
  constructor
  · rintro rfl
    exact ⟨rfl, rfl, rfl⟩
  · rintro ⟨htimestamp, hprocess, hcounter⟩
    have hfront : a.bytes.take 4 = b.bytes.take 4 :=
      ofBigEndian_inj (by simp) htimestamp
    have hback : a.bytes.drop 9 = b.bytes.drop 9 :=
      ofBigEndian_inj (by simp) hcounter
    ext1
    rw [bytes_eq_parts a, bytes_eq_parts b, hfront, hprocess, hback]

namespace Generator

/-! ## One identifier -/

section Next

variable (g : Generator) (clock : Int)

/-- The written seconds are the clock's, brought within 32 bits. -/
theorem seconds_eq : (seconds clock : Int) = max 0 (min clock (2 ^ 32 - 1)) := by
  have hsize : UInt32.size - 1 = 4294967295 := rfl
  rw [seconds, hsize]
  omega

theorem seconds_lt : seconds clock < 256 ^ 4 := by
  have hseconds := seconds_eq clock
  omega

theorem bytes_next :
    (g.next clock).1.bytes
      = bigEndian 4 (seconds clock)
        ++ (g.process.bytes ++ bigEndian 3 (g.counter &&& 0xffffff).toNat) :=
  List.append_assoc _ _ _

theorem timestamp_next : timestamp (g.next clock).1 = seconds clock := by
  rw [timestamp, bytes_next, List.take_left' (length_bigEndian _ _),
    ofBigEndian_bigEndian (seconds_lt clock)]

theorem process_next : ObjectId.process (g.next clock).1 = g.process.bytes := by
  rw [ObjectId.process, bytes_next, List.drop_left' (length_bigEndian _ _),
    List.take_left' g.process.length_eq]

/-- The low 24 bits of the counter are written. -/
theorem counter_next : ObjectId.counter (g.next clock).1 = g.counter.toNat % 2 ^ 24 := by
  have hmask : (g.counter &&& 0xffffff).toNat = g.counter.toNat % 2 ^ 24 := by
    rw [UInt32.toNat_and]
    exact Nat.and_two_pow_sub_one_eq_mod _ 24
  have hbehind : (g.next clock).1.bytes.drop 9 = bigEndian 3 (g.counter.toNat % 2 ^ 24) := by
    rw [bytes_next, ← List.append_assoc, hmask]
    exact List.drop_left' (by simp)
  rw [ObjectId.counter, hbehind]
  exact ofBigEndian_bigEndian (Nat.mod_lt _ (by decide))

end Next

/-! ## Runs -/

section Run

variable (g : Generator)

/-- The generator behind `n` identifiers. -/
def advance (n : Nat) : Generator := { g with counter := g.counter + UInt32.ofNat n }

@[simp] theorem advance_zero : g.advance 0 = g := by
  simp [advance]

theorem next_snd (clock : Int) : (g.next clock).2 = g.advance 1 := rfl

theorem advance_advance (m n : Nat) : (g.advance m).advance n = g.advance (m + n) := by
  simp only [advance, UInt32.ofNat_add, UInt32.add_assoc]

/-- Behind `n` identifiers the written counter is `n` further: 2^24 divides 2^32, so the wrap of the
    32 bits that the counter is kept in does not show. -/
theorem toNat_counter_advance (n : Nat) :
    (g.advance n).counter.toNat % 2 ^ 24 = (g.counter.toNat + n) % 2 ^ 24 := by
  simp only [advance, UInt32.toNat_add, UInt32.toNat_ofNat']
  omega

@[simp] theorem length_run (clocks : List Int) : (g.run clocks).length = clocks.length := by
  induction clocks generalizing g with
  | nil => rfl
  | cons clock rest ih => rw [run, List.length_cons, List.length_cons, ih]

/-- A run goes on where its front ends. -/
theorem run_append (front back : List Int) :
    g.run (front ++ back) = g.run front ++ (g.advance front.length).run back := by
  induction front generalizing g with
  | nil => simp [run]
  | cons clock rest ih =>
    rw [List.cons_append, run, run, ih, next_snd, advance_advance, List.length_cons, Nat.add_comm 1,
      List.cons_append]

/-- Consecutive identifiers of a run are a run of the generator at their place. -/
theorem exists_run_of_infix {ids : List (Octets 12)} {clocks : List Int}
    (h : ids <:+: g.run clocks) :
    ∃ n part, part <:+: clocks ∧ ids = (g.advance n).run part := by
  obtain ⟨front, back, h⟩ := h
  have hlength := congrArg List.length h
  simp only [List.length_append, length_run] at hlength
  -- the readings cut at the same two places
  obtain ⟨first, others, rfl, hfirst⟩ : ∃ first others, clocks = first ++ others
      ∧ first.length = front.length :=
    ⟨clocks.take front.length, clocks.drop front.length, (List.take_append_drop _ _).symm,
      List.length_take_of_le (by omega)⟩
  obtain ⟨part, last, rfl, hpart⟩ : ∃ part last, others = part ++ last
      ∧ part.length = ids.length :=
    ⟨others.take ids.length, others.drop ids.length, (List.take_append_drop _ _).symm,
      List.length_take_of_le (by rw [List.length_append] at hlength; omega)⟩
  rw [run_append, run_append, List.append_assoc] at h
  have hbehind := (List.append_inj h (by rw [length_run, hfirst])).2
  have hids := (List.append_inj hbehind (by rw [length_run, hpart])).1
  exact ⟨first.length, part, ⟨first, last, by rw [List.append_assoc]⟩, hids⟩

/-- The identifier at a place is the one that the generator makes there. -/
theorem getElem?_run (clocks : List Int) (i : Nat) :
    (g.run clocks)[i]? = clocks[i]?.map fun clock => ((g.advance i).next clock).1 := by
  induction clocks generalizing g i with
  | nil => rfl
  | cons clock rest ih =>
    cases i with
    | zero => simp [run]
    | succ i =>
      rw [run, List.getElem?_cons_succ, List.getElem?_cons_succ, ih, next_snd]
      simp only [advance_advance, Nat.add_comm 1 i]

/-- Two identifiers of a run are the same if their seconds are and a multiple of 2^24 lies between
    their places, and not otherwise. -/
theorem next_advance_eq_iff (i j : Nat) (clock clock' : Int) :
    ((g.advance i).next clock).1 = ((g.advance j).next clock').1
      ↔ seconds clock = seconds clock' ∧ i % 2 ^ 24 = j % 2 ^ 24 := by
  have hcounter : (g.counter.toNat + i) % 2 ^ 24 = (g.counter.toNat + j) % 2 ^ 24
      ↔ i % 2 ^ 24 = j % 2 ^ 24 := by omega
  rw [eq_iff_parts]
  simp only [timestamp_next, process_next, counter_next, toNat_counter_advance, hcounter]
  exact and_congr_right fun _ => and_iff_right rfl

/-- At most 2^24 identifiers made in one run are different from each other. -/
theorem nodup_run {clocks : List Int} (h : clocks.length ≤ 2 ^ 24) : (g.run clocks).Nodup := by
  rw [List.nodup_iff_getElem?_ne_getElem?]
  intro i j hij hj heq
  rw [length_run] at hj
  have hi : i < clocks.length := Nat.lt_trans hij hj
  rw [getElem?_run, getElem?_run, List.getElem?_eq_getElem hi, List.getElem?_eq_getElem hj] at heq
  have hplaces := ((g.next_advance_eq_iff i j _ _).1 (Option.some.inj heq)).2
  omega

/-- All identifiers of a run carry the octets of the process. -/
theorem process_of_mem_run {clocks : List Int} {id : Octets 12} (h : id ∈ g.run clocks) :
    ObjectId.process id = g.process.bytes := by
  induction clocks generalizing g with
  | nil => cases h
  | cons clock rest ih =>
    rcases List.mem_cons.1 h with rfl | h
    · exact g.process_next clock
    · exact ih (g.next clock).2 h

/-- Whatever octets the process has, wherever the counter starts and whatever the clock shows, every
    reading gives an identifier with the octets of the process, the counters of two consecutive ones
    differ by one modulo 2^24, and of at most 2^24 consecutive ones no two are the same. -/
theorem run_distinct (clocks : List Int) :
    (g.run clocks).length = clocks.length
      ∧ (∀ id ∈ g.run clocks, ObjectId.process id = g.process.bytes)
      ∧ (∀ a b, [a, b] <:+: g.run clocks → ObjectId.counter b = (ObjectId.counter a + 1) % 2 ^ 24)
      ∧ ∀ ids, ids <:+: g.run clocks → ids.length ≤ 2 ^ 24 → ids.Nodup := by
  refine ⟨g.length_run clocks, fun id hid => g.process_of_mem_run hid, ?_, ?_⟩
  · intro a b hab
    obtain ⟨n, part, -, hids⟩ := g.exists_run_of_infix hab
    obtain ⟨first, second, rfl⟩ : ∃ first second, part = [first, second] :=
      List.length_eq_two.1 (by rw [← length_run (g.advance n), ← hids]; rfl)
    obtain ⟨rfl, rfl⟩ : a = ((g.advance n).next first).1
        ∧ b = ((g.advance (n + 1)).next second).1 := by
      simpa [run, next_snd, advance_advance] using hids
    rw [counter_next, counter_next, toNat_counter_advance, toNat_counter_advance, Nat.mod_add_mod,
      Nat.add_assoc]
  · intro ids hids hlength
    obtain ⟨n, part, -, rfl⟩ := g.exists_run_of_infix hids
    rw [length_run] at hlength
    exact (g.advance n).nodup_run hlength

end Run

/-- The counter wraps in its 32 bits behind the second identifier, and the clock shows readings on
    both sides of what is written and one of them twice. -/
theorem run_distinct_over_wrap :
    let g : Generator := ⟨⟨[1, 2, 3, 4, 5], rfl⟩, 0xfffffffe⟩
    let ids := g.run [5, -1, 2 ^ 40, 5]
    let last := ((g.advance 1).next (-1)).1
    let first := ((g.advance 2).next (2 ^ 40)).1
    (g.advance 2).counter = 0
      ∧ ids.map Octets.bytes
        = [[0, 0, 0, 5, 1, 2, 3, 4, 5, 0xff, 0xff, 0xfe],
           [0, 0, 0, 0, 1, 2, 3, 4, 5, 0xff, 0xff, 0xff],
           [0xff, 0xff, 0xff, 0xff, 1, 2, 3, 4, 5, 0, 0, 0],
           [0, 0, 0, 5, 1, 2, 3, 4, 5, 0, 0, 1]]
      ∧ [last, first] <:+: ids ∧ ObjectId.counter first = (ObjectId.counter last + 1) % 2 ^ 24
      ∧ ids.length ≤ 2 ^ 24 ∧ ids.Nodup := by
  intro g ids last first
  obtain ⟨hlength, -, hstep, hnodup⟩ := g.run_distinct [5, -1, 2 ^ 40, 5]
  have hneighbours : [last, first] <:+: ids := ⟨ids.take 1, ids.drop 3, by decide⟩
  have hfew : ids.length ≤ 2 ^ 24 := by
    rw [hlength]
    decide
  exact ⟨by decide, by decide, hneighbours, hstep last first hneighbours, hfew,
    hnodup ids List.infix_rfl hfew⟩

end Generator

end SealedEnvelope.ObjectId
